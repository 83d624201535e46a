import Signpost.Source.Basic

/-!
# Resolvers

A resolver asks several sources of definitions of one type, in an order of priority.  A look-up of
one definition asks them one after another, and the first that has it wins; a look-up of many asks
all of them at once and joins what they answer.  No call to a source outlasts the resolver's limit,
and a source that fails never keeps the others from answering.

## Main definitions

* `Resolution`: what is found of one definition.
* `Resolver.find`, `Resolver.find?`, `Resolver.selectFirst`: look-ups of one definition.
* `Resolver.findMany`, `Resolver.select`, `Resolver.all`: look-ups of many.
* `Resolver.refresh`: reconciles all sources.
-/

namespace Signpost

/-- What is found of one definition. -/
inductive Resolution (α : Type) where
  | found (value : α)
  /-- Every source answered, and none has it. -/
  | notFound
  /-- No source has it, and these could not answer. -/
  | unavailable (failedSources : List String)
deriving DecidableEq

namespace Resolution

/-- The value that was found. -/
def value? {α : Type} : Resolution α → Option α
  | .found value => some value
  | _ => none

/-- The same resolution of another value. -/
def map {α β : Type} (f : α → β) : Resolution α → Resolution β
  | .found value => .found (f value)
  | .notFound => .notFound
  | .unavailable failedSources => .unavailable failedSources

@[simp] theorem value?_map {α β : Type} (f : α → β) (r : Resolution α) :
    (r.map f).value? = r.value?.map f := by cases r <;> rfl

/-- What is concluded when no source has the definition. -/
def missing {α : Type} (failedSources : List String) : Resolution α :=
  if failedSources.isEmpty then .notFound else .unavailable failedSources

/-- The JSON form of a resolution. -/
def toJson {α : Type} (value : α → Json) : Resolution α → Json
  | .found a => .object [("resolution", .string "found"), ("value", value a)]
  | .notFound => .object [("resolution", .string "not_found")]
  | .unavailable failedSources => .object [("resolution", .string "unavailable"),
      ("failed_sources", .ofStrings failedSources)]

end Resolution

/-- Sources in their order of priority. -/
structure Resolver (σ : Type) where
  sources : List σ
  /-- How long a call to one source may take. -/
  limit : Option Nat

namespace Resolver

variable {σ α β : Type} [Source σ α]

/-! ## One call -/

/-- One call to a source, begun at a moment.  A caller who has been told to give up does not begin
it, and a call that is given up leaves the source as it was. -/
def attempt (limit : Option Nat) (cancel : Cancel) (start : Nat) (s : σ)
    (ask : σ → Reply σ β) : Timed (Except CallError β) × σ :=
  if cancel.before start then (⟨.error .cancelled, some start⟩, s)
  else
    let reply := ask s
    let answer := guard limit cancel start reply.course
    match answer.value with
    | .ok _ | .error (.failed _) => (answer, reply.after)
    -- given up, or out of time
    | .error _ => (answer, s)

/-! ## One definition -/

/-- Asks sources for a definition one after another, with the names of those that failed before. -/
def findFrom (limit : Option Nat) (cancel : Cancel) (id : Uuid) :
    Nat → List String → List σ → Timed (Resolution α) × List σ
  | start, failed, [] => (⟨.missing failed, some start⟩, [])
  | start, failed, s :: rest =>
    let (answer, after) := attempt limit cancel start s (Source.find id)
    match answer.ends with
    | none => (⟨.missing (failed ++ [Source.name s]), none⟩, after :: rest)
    | some ends =>
      match answer.value with
      | .ok (some a) => (⟨.found a, some ends⟩, after :: rest)
      | .ok none =>
        let (result, rest) := findFrom limit cancel id ends failed rest
        (result, after :: rest)
      | .error .cancelled =>
        (⟨.missing (failed ++ [Source.name s]), some ends⟩, after :: rest)
      | .error _ =>
        let (result, rest) := findFrom limit cancel id ends (failed ++ [Source.name s]) rest
        (result, after :: rest)

/-- Looks up one definition. -/
def find (r : Resolver σ) (cancel : Cancel) (id : Uuid) :
    Timed (Resolution α) × Resolver σ :=
  let (result, sources) := findFrom r.limit cancel id 0 [] r.sources
  (result, { r with sources })

/-- Looks up one definition, without saying why there is none. -/
def find? (r : Resolver σ) (cancel : Cancel) (id : Uuid) : Timed (Option α) × Resolver σ :=
  let (result, r) := r.find cancel id
  (⟨result.value.value?, result.ends⟩, r)

/-- Asks sources for some selected definition one after another. -/
def selectFirstFrom (limit : Option Nat) (cancel : Cancel) (f : Filter α) :
    Nat → List σ → Timed (Option α) × List σ
  | start, [] => (⟨none, some start⟩, [])
  | start, s :: rest =>
    let (answer, s) := attempt limit cancel start s (Source.selectFirst f)
    match answer.ends with
    | none => (⟨none, none⟩, s :: rest)
    | some ends =>
      match answer.value with
      | .ok (some a) => (⟨some a, some ends⟩, s :: rest)
      | .error .cancelled => (⟨none, some ends⟩, s :: rest)
      | .ok none | .error _ =>
        let (result, rest) := selectFirstFrom limit cancel f ends rest
        (result, s :: rest)

/-- Looks up some definition that a filter selects. -/
def selectFirst (r : Resolver σ) (cancel : Cancel) (f : Filter α) :
    Timed (Option α) × Resolver σ :=
  let (result, sources) := selectFirstFrom r.limit cancel f 0 r.sources
  (result, { r with sources })

/-! ## Many definitions -/

/-- The definitions of a list without those whose identifier has occurred before. -/
def distinct [Definition α] (seen : List Uuid) : List α → List α
  | [] => []
  | a :: rest =>
    if Definition.id a ∈ seen then distinct seen rest
    else a :: distinct (Definition.id a :: seen) rest

/-- The answers of the sources that answered, one after another. -/
def answered (answers : List (Timed (Except CallError (List α)))) : List α :=
  answers.flatMap fun answer =>
    match answer.value with
    | .ok definitions => definitions
    | .error _ => []

/-- The later of two moments, of which either may never come. -/
def later : Option Nat → Option Nat → Option Nat
  | some t, some t' => some (max t t')
  | _, _ => none

/-- Asks all sources at once, and joins their answers in the order of priority.  Of definitions with
one identifier the first counts. -/
def fanOut [Definition α] (r : Resolver σ) (cancel : Cancel) (ask : σ → Reply σ (List α)) :
    Timed (List α) × Resolver σ :=
  let calls := r.sources.map fun s => attempt r.limit cancel 0 s ask
  let answers := calls.map Prod.fst
  (⟨distinct [] (answered answers), (answers.map Timed.ends).foldl later (some 0)⟩,
    { r with sources := calls.map Prod.snd })

/-- Looks up the definitions with the given identifiers. -/
def findMany [Definition α] (r : Resolver σ) (cancel : Cancel) (ids : List Uuid) :
    Timed (List α) × Resolver σ :=
  if ids.isEmpty then (⟨[], some 0⟩, r) else r.fanOut cancel (Source.findMany ids)

/-- Looks up the definitions that a filter selects. -/
def select [Definition α] (r : Resolver σ) (cancel : Cancel) (f : Filter α) :
    Timed (List α) × Resolver σ :=
  r.fanOut cancel (Source.select f)

/-- Looks up all definitions. -/
def all [Definition α] (r : Resolver σ) (cancel : Cancel) : Timed (List α) × Resolver σ :=
  r.fanOut cancel Source.all

/-! ## Reconciling -/

/-- A failed refresh, with the source that failed. -/
def refreshFailure (name : String) (e : CallError) : Failure :=
  e.toFailure.within ("refreshing source " ++ name)

/-- Refreshes sources one after another, all of them whatever happens.  The first failure is
given. -/
def refreshFrom (limit : Option Nat) (cancel : Cancel) :
    Nat → List σ → Timed (Except Failure Unit) × List σ
  | start, [] => (⟨.ok (), some start⟩, [])
  | start, s :: rest =>
    let (answer, after) := attempt limit cancel start s Source.refresh
    match answer.ends with
    | none => (⟨.ok (), none⟩, after :: rest)
    | some ends =>
      let gaveUp := match answer.value with
        | .error .cancelled => true
        | _ => false
      let (result, rest) := refreshFrom limit (cancel.afterGivingUp gaveUp) ends rest
      match answer.value with
      | .ok () => (result, after :: rest)
      | .error e => (⟨.error (refreshFailure (Source.name s) e), result.ends⟩, after :: rest)

/-- Reconciles all sources, beginning at a moment. -/
def refresh (r : Resolver σ) (cancel : Cancel) (start : Nat) :
    Timed (Except Failure Unit) × Resolver σ :=
  let (result, sources) := refreshFrom r.limit cancel start r.sources
  (result, { r with sources })

/-! ## Announcements -/

/-- The channels of the sources. -/
def channels (r : Resolver σ) : List (Channel DataChanged) := r.sources.map Source.changes

/-- The names of the sources. -/
def names (r : Resolver σ) : List String := r.sources.map Source.name

end Resolver

end Signpost

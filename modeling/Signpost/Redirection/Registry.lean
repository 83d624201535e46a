import Signpost.Redirection.Table
import Signpost.Mint

/-!
# The redirection registry

The registry is a rule table with a version, an opaque token that is replaced once by every call
that changes the rules.  A caller polls for changes with the last version that it saw.  A batch is
put in as a whole or not at all.

## Main definitions

* `Version`, `Redirection.Snapshot`
* `Redirection.Attempt`: what has come of a call, with the registry after it even if it was refused.
* `Registry.ofParts`, `Registry.tryPush`, `Registry.tryPushBatch`, `Registry.popBatch`
* `Registry.snapshot`, `Registry.snapshotUnless`
-/

namespace Signpost

/-- The version token of a redirection registry.  Only equality of versions means anything. -/
structure Version where
  text : String
deriving DecidableEq, Inhabited

/-- A version that has not been used before. -/
def Version.fresh (mint : Mint) : Version × Mint :=
  let (id, mint) := mint.fresh
  (⟨id.toString⟩, mint)

namespace Redirection

/-- All rules as of one version, ordered by identifier. -/
structure Snapshot where
  version : Version
  rules : List Rule
deriving DecidableEq

/-- The JSON form of a snapshot. -/
def Snapshot.toJson (s : Snapshot) : Json :=
  .object [("version", .string s.version.text), ("rules", .array (s.rules.map Rule.toJson))]

/-- A versioned table of redirection rules. -/
structure Registry where
  table : RuleTable
  version : Version

/-- What has come of a call that may change a registry: whether anything has changed or why the call
was refused, and what is there after it.  Nothing in this says that a refused call changes
nothing. -/
structure Attempt where
  verdict : Except Error Bool
  after : Registry
  mint : Mint

namespace Attempt

/-- A call that was not refused. -/
def ofChange (change : (Registry × Bool) × Mint) : Attempt := ⟨.ok change.1.2, change.1.1, change.2⟩

/-- What is there after a call, for a caller who keeps what was there before a refused one. -/
def toExcept (a : Attempt) : Except Error ((Registry × Bool) × Mint) :=
  a.verdict.map fun changed => ((a.after, changed), a.mint)

end Attempt

namespace Registry

/-- The registry without rules, at a fresh version. -/
def new (mint : Mint) : Registry × Mint :=
  let (version, mint) := Version.fresh mint
  (⟨.empty, version⟩, mint)

/-- The registry of stored rules, which keep their version.  They are not validated, and of rules
with one identifier the first counts. -/
def ofParts (rules : List Rule) (version : Version) : Except Error Registry :=
  let (verdict, table) := RuleTable.empty.pushAll rules
  verdict.map fun _ => ⟨table, version⟩

/-- The number of rules. -/
def size (r : Registry) : Nat := r.table.rules.size

/-- The rule with an identifier. -/
def get? (r : Registry) (id : Uuid) : Option Rule := r.table.rules.get? id

/-- The rules ordered by identifier. -/
def all (r : Registry) : List Rule := r.table.all

/-- The rules of a source, in the order in which they came. -/
def rulesFor (r : Registry) (source : String) : List Rule := r.table.rulesFor source

/-- Replaces the table, and the version if something has changed. -/
def commit (r : Registry) (table : RuleTable) (changed : Bool) (mint : Mint) :
    (Registry × Bool) × Mint :=
  if changed then
    let (version, mint) := Version.fresh mint
    ((⟨table, version⟩, true), mint)
  else (({ r with table }, false), mint)

/-- Puts in one valid rule. -/
def tryPush (r : Registry) (rule : Rule) (mint : Mint) : Attempt :=
  match rule.validate with
  | .error e => ⟨.error e, r, mint⟩
  | .ok () =>
    match r.table.push rule with
    | .error e => ⟨.error e, r, mint⟩
    | .ok (table, changed) => .ofChange (r.commit table changed mint)

/-- Refuses a list of rules with an invalid one. -/
def validateAll : List Rule → Except Error Unit
  | [] => .ok ()
  | rule :: rest => do
    rule.validate
    validateAll rest

theorem validateAll_eq_ok_iff {rules : List Rule} :
    validateAll rules = .ok () ↔ ∀ rule ∈ rules, rule.validate = .ok () := by
  induction rules with
  | nil => simp [validateAll]
  | cons rule rest ih =>
    rw [List.forall_mem_cons, ← ih, validateAll]
    cases rule.validate <;> simp [bind, Except.bind]

/-- Puts in several rules, all of which have to be valid and free of conflicts with the rules there
and with each other.  They go into a copy of the table first, and into the table itself only if the
copy has taken all of them. -/
def tryPushBatch (r : Registry) (rules : List Rule) (mint : Mint) : Attempt :=
  match validateAll rules with
  | .error e => ⟨.error e, r, mint⟩
  | .ok () =>
    match r.table.pushAll rules with
    | (.error e, _) => ⟨.error e, r, mint⟩
    | (.ok false, _) => ⟨.ok false, r, mint⟩
    | (.ok true, _) =>
      match r.table.pushAll rules with
      -- a rule that the table refused now would leave those before it behind
      | (.error e, table) => ⟨.error e, { r with table }, mint⟩
      | (.ok _, table) => .ofChange (r.commit table true mint)

/-- The table takes the rules as its copy did: the second time nothing can be refused any more. -/
theorem tryPushBatch_eq_of_valid {r : Registry} {rules : List Rule}
    (h : validateAll rules = .ok ()) (mint : Mint) :
    r.tryPushBatch rules mint =
      match r.table.pushAll rules with
      | (.error e, _) => ⟨.error e, r, mint⟩
      | (.ok false, _) => ⟨.ok false, r, mint⟩
      | (.ok true, table) => .ofChange (r.commit table true mint) := by
  rw [tryPushBatch, h]
  rcases r.table.pushAll rules with ⟨_ | (_ | _), table⟩ <;> rfl

/-- Puts in one valid rule, or says why not. -/
def push (r : Registry) (rule : Rule) (mint : Mint) :
    Except Error ((Registry × Bool) × Mint) :=
  (r.tryPush rule mint).toExcept

/-- Puts in several rules as a whole, or says why not. -/
def pushBatch (r : Registry) (rules : List Rule) (mint : Mint) :
    Except Error ((Registry × Bool) × Mint) :=
  (r.tryPushBatch rules mint).toExcept

/-- Takes out the rules with the given identifiers. -/
def popBatch (r : Registry) (ids : List Uuid) (mint : Mint) : (Registry × Bool) × Mint :=
  let (table, changed) := r.table.removeAll ids
  r.commit table changed mint

/-- Takes out one rule. -/
def pop (r : Registry) (id : Uuid) (mint : Mint) : (Registry × Bool) × Mint := r.popBatch [id] mint

/-- All rules at the current version. -/
def snapshot (r : Registry) : Snapshot := ⟨r.version, r.all⟩

/-- All rules, unless the caller holds the current version already. -/
def snapshotUnless (r : Registry) (held : Option Version) : Option Snapshot :=
  if held = some r.version then none else some r.snapshot

end Registry

end Redirection

end Signpost

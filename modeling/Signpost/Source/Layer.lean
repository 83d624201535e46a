import Signpost.Source.Hindered
import Signpost.Source.Memory
import Signpost.Source.Persistent

/-!
# Layers

Sources of different construction are put into one list as layers.

## Main definitions

* `Layer`
-/

namespace Signpost

/-- A source of any construction. -/
inductive Layer (α : Type) where
  | memory (s : MemorySource α)
  | backed (s : Backed α)
  | hindered (s : Hindered (MemorySource α))

namespace Layer

variable {α : Type} [Definition α]

/-- A reply of a source as a reply of its layer. -/
def lift {σ β : Type} (wrap : σ → Layer α) (reply : Reply σ β) : Reply (Layer α) β :=
  ⟨reply.course, wrap reply.after⟩

/-- Asks the source of a layer. -/
def call {β : Type} (ask : {σ : Type} → [Source σ α] → σ → Reply σ β) :
    Layer α → Reply (Layer α) β
  | .memory s => lift .memory (ask s)
  | .backed s => lift .backed (ask s)
  | .hindered s => lift .hindered (ask s)

instance : Source (Layer α) α where
  name
    | .memory s => Source.name s
    | .backed s => Source.name s
    | .hindered s => Source.name s
  find id := call fun s => Source.find id s
  findMany ids := call fun s => Source.findMany ids s
  select f := call fun s => Source.select f s
  selectFirst f := call fun s => Source.selectFirst f s
  all := call fun s => Source.all s
  refresh := call fun s => Source.refresh s
  changes
    | .memory s => Source.changes s
    | .backed s => Source.changes s
    | .hindered s => Source.changes s

end Layer

end Signpost

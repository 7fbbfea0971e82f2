import ContentTables.Error

/-!
# Hooks

A hook calls its handlers in the order of their priorities, and handlers of one priority in the
order in which they were added.

* `Handler`, `Pipeline` : the handlers of a hook; `Pipeline.push` adds one and sorts them again;
* `FilterPipeline.apply` : hands a value through all handlers, up to the first that fails;
* `EventPipeline.trigger` : tells all handlers of an event, up to the first that fails.

Both also say which handlers they called. A failure names the hook and the handler; a filter leaves
the failure of another hook as it is.
-/

namespace ContentTables

structure Handler (β : Type) where
  name : String
  priority : Int
  run : β

structure Pipeline (β : Type) where
  hook : String
  handlers : List (Handler β) := []

namespace Pipeline

variable {β : Type}

/-- By priority, and those of one priority in the order in which they were. -/
def sortedByPriority (handlers : List (Handler β)) : List (Handler β) :=
  handlers.mergeSort fun g h => decide (g.priority ≤ h.priority)

def push (p : Pipeline β) (h : Handler β) : Pipeline β :=
  { p with handlers := sortedByPriority (p.handlers ++ [h]) }

def pushAll (p : Pipeline β) (hs : List (Handler β)) : Pipeline β := hs.foldl push p

def names (p : Pipeline β) : List String := p.handlers.map (·.name)

def isEmpty (p : Pipeline β) : Bool := p.handlers.isEmpty

end Pipeline

/-- The failure of a handler, as the hook reports it. -/
def hookFailure (hook handler : String) (e : StoreError) : StoreError :=
  .hook hook (handler ++ ": " ++ e.message)

/-! ## Filters -/

/-- Handlers that turn a value into another one, in view of a context. -/
abbrev FilterPipeline (κ α : Type) := Pipeline (κ → α → Except StoreError α)

namespace FilterPipeline

variable {κ α : Type}

def tagged (hook handler : String) : StoreError → StoreError
  | .hook name reason => .hook name reason
  | e => hookFailure hook handler e

def applyAll (hook : String) (context : κ) :
    List (Handler (κ → α → Except StoreError α)) → α → List String × Except StoreError α
  | [], value => ([], .ok value)
  | h :: hs, value =>
    match h.run context value with
    | .error e => ([h.name], .error (tagged hook h.name e))
    | .ok value =>
      let (called, result) := applyAll hook context hs value
      (h.name :: called, result)

/-- The handlers called, and the value behind the last one. -/
def trace (p : FilterPipeline κ α) (context : κ) (value : α) :
    List String × Except StoreError α :=
  applyAll p.hook context p.handlers value

def apply (p : FilterPipeline κ α) (context : κ) (value : α) : Except StoreError α :=
  (p.trace context value).2

end FilterPipeline

/-! ## Events -/

/-- Handlers that are told of an event. -/
abbrev EventPipeline (ε : Type) := Pipeline (ε → Except StoreError Unit)

namespace EventPipeline

variable {ε : Type}

def triggerAll (hook : String) (event : ε) :
    List (Handler (ε → Except StoreError Unit)) → List String × Except StoreError Unit
  | [] => ([], .ok ())
  | h :: hs =>
    match h.run event with
    | .error e => ([h.name], .error (hookFailure hook h.name e))
    | .ok () =>
      let (called, result) := triggerAll hook event hs
      (h.name :: called, result)

/-- The handlers called, and whether all went well. -/
def trigger (p : EventPipeline ε) (event : ε) : List String × Except StoreError Unit :=
  triggerAll p.hook event p.handlers

end EventPipeline

end ContentTables

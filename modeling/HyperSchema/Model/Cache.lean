import HyperSchema.Table

/-!
# Cache of open models

Models are kept by URL until they have not been used for a while. Every model put into the cache
gets a timer of its own. When a timer is due it looks at the entry then under its URL: an entry
whose time is up is dropped, and with it the timer; otherwise the timer waits for the time that the
entry has now. A timer whose entry is gone comes to nothing.
-/

namespace HyperSchema

structure CacheEntry where
  model : Nat
  expires : Nat
  deriving DecidableEq

/-- A timer that has not begun to wait has no deadline yet. -/
structure Timer where
  url : String
  deadline : Option Nat
  deriving DecidableEq

structure Cache where
  ttl : Nat
  now : Nat
  entries : Table CacheEntry
  timers : List Timer

namespace Cache

def empty (ttl : Nat) : Cache := ⟨ttl, 0, [], []⟩

/-- The model for a URL; looking does not count as use. -/
def get? (c : Cache) (url : String) : Option Nat := (Table.get? c.entries url).map CacheEntry.model

/-- Begins the time of an entry anew. -/
def touch (c : Cache) (url : String) : Cache :=
  match Table.get? c.entries url with
  | some e => { c with entries := Table.insert c.entries url { e with expires := c.now + c.ttl } }
  | none => c

/-- Puts a model in, unless there is one for the URL; answers the one that is there in the end. -/
def insert (c : Cache) (url : String) (model : Nat) (timed : Bool) : Nat × Cache :=
  match Table.get? c.entries url with
  | some e => (e.model, c)
  | none =>
    (model,
      { c with
        entries := Table.insert c.entries url ⟨model, c.now + c.ttl⟩
        timers := if timed then c.timers ++ [⟨url, none⟩] else c.timers })

def evict (c : Cache) (url : String) : Cache := { c with entries := Table.erase c.entries url }

def size (c : Cache) : Nat := c.entries.length

/-- A timer that has not begun to wait is due at once. -/
def isDue (now : Nat) (t : Timer) : Bool :=
  match t.deadline with
  | some deadline => decide (deadline ≤ now)
  | none => true

/-- Lets a timer look at its entry if it is due. -/
def poll (c : Cache) (t : Timer) : Cache :=
  if isDue c.now t then
    match Table.get? c.entries t.url with
    | none => c
    | some e =>
      if e.expires ≤ c.now then c.evict t.url
      else { c with timers := c.timers ++ [⟨t.url, some e.expires⟩] }
  else { c with timers := c.timers ++ [t] }

/-- Lets every timer look at the clock. -/
def tick (c : Cache) : Cache := c.timers.foldl poll { c with timers := [] }

/-- Moves the clock. -/
def advance (c : Cache) (milliseconds : Nat) : Cache :=
  tick { c.tick with now := c.now + milliseconds }

end Cache

end HyperSchema

import CommittedRegex.Continuation

/-! # The store of continuations

Continuations are kept in numbered slots. A continuation is taken out when it is resumed, and the slot
that was freed last is the first to be used again, so the number of slots grows only with the number
of continuations that wait at the same time. Slot zero holds the terminal continuation for ever. -/
namespace CommittedRegex

/-- The slots, the empty ones among them in the order in which they will be used, the number of
continuations that wait, and the largest number that ever did. -/
structure Store where
  slots : Array (Option Continuation)
  free : List Nat
  live : Nat
  peak : Nat

namespace Store

def empty : Store where
  slots := #[some .done]
  free := []
  live := 0
  peak := 0

instance : Inhabited Store := ⟨empty⟩

/-- Stores a continuation and gives its id. -/
def push (store : Store) (c : Continuation) : ContId × Store :=
  let live := store.live + 1
  let peak := max store.peak live
  match store.free with
  | index :: free =>
    (⟨index⟩, { slots := store.slots.setIfInBounds index (some c), free, live, peak })
  | [] => (⟨store.slots.size⟩, { slots := store.slots.push (some c), free := [], live, peak })

/-- The continuation that waits under an id; the terminal one does not wait. -/
def waiting? (store : Store) (id : ContId) : Option Continuation :=
  if id = .done then none else store.slots[id.index]?.join

/-- The continuation under an id, be it one that waits or the terminal one. -/
def find? (store : Store) (id : ContId) : Option Continuation :=
  if id = .done then some .done else store.waiting? id

/-- Empties the slot of a continuation that waits. -/
def remove (store : Store) (id : ContId) : Store :=
  if id = .done then store
  else { store with
    slots := store.slots.setIfInBounds id.index none
    free := id.index :: store.free
    live := store.live - 1 }

/-- Takes a continuation out, unless there is none under the id. The terminal one is given and
stays. -/
def take (store : Store) (id : ContId) : Option (Continuation × Store) :=
  match store.find? id with
  | some c => some (c, store.remove id)
  | none => none

/-- A store that came out of the empty one by storing and taking out. -/
inductive Reachable : Store → Prop
  | empty : Reachable empty
  | push {store : Store} (c : Continuation) : Reachable store → Reachable (store.push c).2
  | take {store rest : Store} {id : ContId} {c : Continuation} :
      Reachable store → store.take id = some (c, rest) → Reachable rest

end Store

end CommittedRegex

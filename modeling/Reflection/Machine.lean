import Reflection.Machine.Act
/-!
# Threads on shared state

A machine is a number of threads and what they share. A run of it is a list of moves: what client
code does on some thread, the next step of an operation under way on some thread, the end of some
thread's patience, or another order of hash maps. Which thread moves next, and what client code does, is
open; so whatever holds after every run holds for all client code, for every interleaving and for every
order of hash maps.
-/

namespace Reflection

/-- Threads and what they share. -/
structure Machine where
  shared : Shared := {}
  threads : List Thread := []
deriving Repr, Inhabited

namespace Machine

/-- Lets one thread do something. -/
def onThread (m : Machine) (t : Nat) (f : Shared → Thread → Shared × Thread) : Machine :=
  match m.threads[t]? with
  | none => m
  | some th =>
    let (shared, th) := f m.shared th
    { shared, threads := m.threads.set t th }

/-- Starts a thread, which is in a context of its own. -/
def spawn (m : Machine) : Machine :=
  { m with threads := m.threads ++ [{ current := .own m.threads.length }] }

/-- Carries out what client code asks for. -/
def act (m : Machine) (t : Nat) (a : Action) : Machine :=
  m.onThread t fun s th => th.act s a

/-- Ends the client code that runs. -/
def finish (m : Machine) (t : Nat) (y : Yield) : Machine :=
  m.onThread t fun s th => th.finish s y

/-- Takes the next step of the operation under way on a thread, unless client code runs there or it
has to wait. -/
def advance? (m : Machine) (t : Nat) : Option Machine :=
  match m.threads[t]? with
  | none => none
  | some th =>
    (th.advance m.shared).map fun (shared, th) => { shared, threads := m.threads.set t th }

/-- The time at which a thread gives up waiting, if it does. -/
def deadline? (m : Machine) (t : Nat) : Option Nat :=
  m.threads[t]?.bind (·.deadline?)

/-- Lets a thread give up waiting, if it does so at some time, which is then past. -/
def expire (m : Machine) (t : Nat) : Machine :=
  match m.deadline? t with
  | none => m
  | some deadline =>
    { m with shared := { m.shared with now := max m.shared.now deadline } }.onThread t
      fun s th => th.expire s

/-- From now on the hash maps of signals are gone through in another order. -/
def reorder (m : Machine) (order : List Nat) : Machine :=
  { m with shared := { m.shared with signalOrder := order } }

/-- What can happen. -/
inductive Move where
  | spawn
  | reorder (order : List Nat)
  | act (thread : Nat) (action : Action)
  | finish (thread : Nat) (y : Yield)
  | advance (thread : Nat)
  | expire (thread : Nat)
deriving Repr

/-- The machine after a move. A move that is not possible changes nothing. -/
def move (m : Machine) : Move → Machine
  | .spawn => m.spawn
  | .reorder order => m.reorder order
  | .act t a => m.act t a
  | .finish t y => m.finish t y
  | .advance t => (m.advance? t).getD m
  | .expire t => m.expire t

/-- The machine after a run. -/
def run (m : Machine) (moves : List Move) : Machine :=
  moves.foldl move m

end Machine
end Reflection

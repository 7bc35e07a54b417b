/-
A remote with a script in front of it.

For each kind of call there is a queue of answers, used up one by one before the remote behind is asked. A scripted
answer does not reach the remote, so a refused connection opens nothing; an entry may also say that the call passes.
-/
import PartitionedScan.Remote.Basic

namespace PartitionedScan

/-- answers to come, by kind of call; none lets a call pass -/
structure Script where
  connect : List (Option RemoteError)
  check : List ConnectionStatus
  estimate : List (Except RemoteError Nat)
  fetch : List (Option (Except RemoteError String))

namespace Script

/-- every call passes -/
def empty : Script := ⟨[], [], [], []⟩

/-- a script after another -/
def append (s t : Script) : Script :=
  ⟨s.connect ++ t.connect, s.check ++ t.check, s.estimate ++ t.estimate, s.fetch ++ t.fetch⟩

end Script

/-- a world with the script that is left in front of it -/
structure Scripted (σ : Type) where
  script : Script
  world : σ

namespace Scripted

variable {σ α : Type}

/-- a call that reaches the world behind -/
def pass (call : σ → α × σ) (s : Scripted σ) : α × Scripted σ :=
  let (answer, world) := call s.world
  (answer, { s with world })

def connect (remote : Remote σ) (c : Connection) (s : Scripted σ) : Except RemoteError Unit × Scripted σ :=
  match s.script.connect with
  | [] => pass (remote.connect c) s
  | entry :: rest =>
    let s := { s with script := { s.script with connect := rest } }
    match entry with
    | some e => (.error e, s)
    | none => pass (remote.connect c) s

def check (remote : Remote σ) (s : Scripted σ) : ConnectionStatus × Scripted σ :=
  match s.script.check with
  | [] => pass remote.check s
  | status :: rest => (status, { s with script := { s.script with check := rest } })

def estimate (remote : Remote σ) (q : Query) (s : Scripted σ) : Except RemoteError Nat × Scripted σ :=
  match s.script.estimate with
  | [] => pass (remote.estimate q) s
  | answer :: rest => (answer, { s with script := { s.script with estimate := rest } })

def fetch (remote : Remote σ) (q : Query) (s : Scripted σ) : Except RemoteError String × Scripted σ :=
  match s.script.fetch with
  | [] => pass (remote.fetch q) s
  | entry :: rest =>
    let s := { s with script := { s.script with fetch := rest } }
    match entry with
    | some answer => (answer, s)
    | none => pass (remote.fetch q) s

/-- the remote behind a script -/
def remote (behind : Remote σ) : Remote (Scripted σ) where
  connect := connect behind
  check := check behind
  estimate := estimate behind
  fetch := fetch behind
  release s := { s with world := behind.release s.world }
  clock s := behind.clock s.world

end Scripted

end PartitionedScan

import Raceboat.States.Run
import Mathlib.Logic.Relation
import Mathlib.Logic.Function.Basic

/-!
# Schedules of the two peers

A schedule starts the peers and steps either of them, any number of times,
on a batch of addresses its counterpart has emitted: delivery may reorder,
delay, repeat or drop addresses. The `Net` carries, beside both peers, a
record of the addresses each peer returned from `start` (shared out of band)
and from `step`; the record is read only by the statements, never by a peer.
-/

namespace Raceboat.States

/-- Both peers with the record of every address each has emitted. -/
structure Net where
  world : World
  /-- The addresses each peer returned from `start`. -/
  oob : Side → List Link
  /-- The addresses each peer returned from `step`. -/
  sent : Side → List Link

/-- Every address the peer on `side` has emitted. -/
def Net.emitted (n : Net) (side : Side) : List Link :=
  n.oob side ++ n.sent side

/-- Two fresh peers with the given requirements, the counter at `linkIdx`. -/
def Net.init (sreqs creqs : List Link) (linkIdx : Nat) : Net :=
  ⟨⟨⟨[], sreqs⟩, ⟨[], creqs⟩, linkIdx⟩, fun _ => [], fun _ => []⟩

/-- `start` of the peer on `side`. -/
def Net.start (n : Net) (side : Side) (args : Args) : Net :=
  let r := n.world.start side args
  ⟨r.1, Function.update n.oob side (n.oob side ++ r.2), n.sent⟩

/-- `step` of the peer on `side` on the batch `msgs`. -/
def Net.step (n : Net) (side : Side) (msgs : List Link) : Option Net :=
  (n.world.step side msgs).map fun r =>
    ⟨r.1, n.oob, Function.update n.sent side (n.sent side ++ r.2.2)⟩

/-- One move of a schedule: a `start`, or a `step` fed only addresses that the
counterpart has emitted. -/
inductive Net.Next : Net → Net → Prop
  | start (n : Net) (side : Side) (args : Args) : Net.Next n (n.start side args)
  | step {n n' : Net} (side : Side) (msgs : List Link) :
      (∀ a ∈ msgs, a ∈ n.emitted side.other) → n.step side msgs = some n' → Net.Next n n'

/-- The states some schedule reaches from two fresh peers. -/
inductive Reachable : Net → Prop
  | init (sreqs creqs : List Link) (linkIdx : Nat) : Reachable (Net.init sreqs creqs linkIdx)
  | next {n n' : Net} : Reachable n → Net.Next n n' → Reachable n'

/-- Every state a schedule reaches from a reachable state is reachable. -/
theorem Reachable.later {n n' : Net} (h : Reachable n)
    (hn : Relation.ReflTransGen Net.Next n n') : Reachable n' := by
  induction hn with
  | refl => exact h
  | tail _ hs ih => exact ih.next hs

/-- `start` adds its addresses to the out-of-band part of the record. -/
theorem Net.emitted_start_self (n : Net) (side : Side) (args : Args) :
    ((n.start side args).emitted side).Perm (n.emitted side ++ (n.world.start side args).2) := by
  simpa [Net.start, Net.emitted] using List.perm_append_comm.append_left (n.oob side)

/-- What `run` does before its loop, as a schedule: the server started, then the client. -/
def Net.started (args : Args × Args) (reqs : List Link × List Link) (linkIdx : Nat) : Net :=
  ((Net.init reqs.1 reqs.2 linkIdx).start .server args.1).start .client args.2

/-- Both peers started, as `run` starts them, is a reachable state. -/
theorem Reachable.started (args : Args × Args) (reqs : List Link × List Link) (linkIdx : Nat) :
    Reachable (Net.started args reqs linkIdx) :=
  ((Reachable.init _ _ _).next (.start _ _ _)).next (.start _ _ _)

/-- The all-`BIDI` scenario of `run_params`, both peers started from counter 1. -/
def bidiNet : Net :=
  Net.started (paramsArgs "BIDI" "BIDI" "BIDI" "BIDI")
    (paramsRequirements "BIDI" "BIDI" "BIDI" "BIDI") 1

/-- The all-`BIDI` scenario after `start` is reachable. -/
theorem bidiNet_reachable : Reachable bidiNet :=
  Reachable.started _ _ _

/-- The all-`BIDI` scenario once the client has stepped on the server's out-of-band
addresses: both peers hold the first link, and the client its three new ones. -/
def bidiNetLoaded : Net :=
  (bidiNet.step .client (bidiNet.emitted .server)).getD bidiNet

/-- The all-`BIDI` scenario after the client's first step is reachable. -/
theorem bidiNetLoaded_reachable : Reachable bidiNetLoaded :=
  bidiNet_reachable.next (.step .client _ (fun _ ha => ha) rfl)

/-- The all-`BIDI` scenario once the server has stepped on the client's new addresses: every
link of both peers is ready. -/
def bidiNetAnswered : Net :=
  (bidiNetLoaded.step .server (bidiNetLoaded.emitted .client)).getD bidiNetLoaded

/-- The all-`BIDI` scenario after the server's answer is reachable. -/
theorem bidiNetAnswered_reachable : Reachable bidiNetAnswered :=
  bidiNetLoaded_reachable.next (.step .server _ (fun _ ha => ha) rfl)

/-- Starting a peer leaves what its counterpart has emitted as it was. -/
@[simp] theorem Net.emitted_start_other (n : Net) (side : Side) (args : Args) :
    (n.start side args).emitted side.other = n.emitted side.other := by
  simp [Net.start, Net.emitted, Function.update_noteq (Side.other_ne side)]

/-- What a successful `step` of the record does: the world steps, and the
addresses it returns are added to the stepping peer's record. -/
theorem Net.step_eq_some {n n' : Net} {side : Side} {msgs : List Link}
    (h : n.step side msgs = some n') :
    ∃ r, n.world.step side msgs = some r ∧ n'.world = r.1 ∧
      n'.emitted side = n.emitted side ++ r.2.2 ∧ n'.emitted side.other = n.emitted side.other ∧
      n'.oob = n.oob := by
  obtain ⟨r, hr, rfl⟩ := Option.map_eq_some'.mp h
  refine ⟨r, hr, rfl, ?_, ?_, rfl⟩ <;>
    simp [Net.emitted, Function.update_noteq (Side.other_ne side)]

end Raceboat.States

import Raceboat.States.NodeState

/-!
# The negotiation driver

`run` starts both peers, then alternates `server.step` on the client's
pending addresses and `client.step` on the server's, until both peers are
final or six rounds have passed. Besides the verdict, the model returns what
`run` prints of each step (its status) and the global counter it leaves.
`Driver.drive` is the same loop body repeated without test or ceiling, and
`Driver.play` the same loop counted in half-rounds. `generateScenarios` runs
`run_params` on every parameter set `prune_invalid_params` keeps.
-/

namespace Raceboat.States

open NodeState

/-- The loop state of `run`: both peers and the two lists of pending addresses. -/
structure Driver where
  world : World
  /-- `client_msgs`, addressed to the server. -/
  clientMsgs : List Link
  /-- `server_msgs`, addressed to the client. -/
  serverMsgs : List Link

/-- The addresses pending for the peer on `side`. -/
def Driver.inbox (d : Driver) : Side → List Link
  | .server => d.clientMsgs
  | .client => d.serverMsgs

/-- One peer's half of the loop body: `status, msgs = peer.step(inbox)`, then the
inbox cleared and `msgs` appended to the counterpart's. -/
def Driver.half (d : Driver) (side : Side) : Option (Driver × String) :=
  (d.world.step side (d.inbox side)).map fun r =>
    (match side with
      | .server => ⟨r.1, [], d.serverMsgs ++ r.2.2⟩
      | .client => ⟨r.1, d.clientMsgs ++ r.2.2, []⟩, r.2.1)

/-- The body of `run`'s loop, with the two statuses it prints. -/
def Driver.round (d : Driver) : Option (Driver × String × String) := do
  let (d, statusS) ← d.half .server
  let (d, statusC) ← d.half .client
  pure (d, statusS, statusC)

/-- `run`'s `while` loop, `n` rounds before the ceiling. -/
def runLoop : Nat → Driver → Option (Driver × List (String × String))
  | 0, d => some (d, [])
  | n + 1, d =>
    if d.world.finished then some (d, [])
    else do
      let (d, statusS, statusC) ← d.round
      let (d, statuses) ← runLoop n d
      pure (d, (statusS, statusC) :: statuses)

/-- What `run` does before its loop: both peers created and started. -/
def startRun (args : Args × Args) (reqs : List Link × List Link) (clientOob : Bool)
    (linkIdx : Nat) : Driver :=
  let w : World := ⟨⟨[], reqs.1⟩, ⟨[], reqs.2⟩, linkIdx⟩
  let (w, serverMsgs) := w.start .server args.1
  let (w, clientMsgs) := w.start .client args.2
  ⟨w, if clientOob then clientMsgs else [], serverMsgs⟩

/-- `run(args, reqs, client_oob)` from the counter value `linkIdx`: the verdict, the
statuses of every round, and the counter afterwards. -/
def run (args : Args × Args) (reqs : List Link × List Link) (clientOob : Bool) (linkIdx : Nat) :
    Option (Bool × List (String × String) × Nat) := do
  let (d, statuses) ← runLoop 6 (startRun args reqs clientOob linkIdx)
  pure (d.world.finished, statuses, d.world.linkIdx)

/-- The peer whose half of the loop body comes `j`-th: the server first. -/
def turn (j : Nat) : Side :=
  if j % 2 = 0 then .server else .client

/-- The first `j` halves of the loop, with no finality test and no ceiling. -/
def Driver.play (d : Driver) : Nat → Option Driver
  | 0 => some d
  | j + 1 => (d.play j).bind fun e => (e.half (turn j)).map Prod.fst

/-- `k` rounds of the loop body, with no finality test and no ceiling. -/
def Driver.drive (d : Driver) (k : Nat) : Option Driver :=
  d.play (2 * k)

/-- Turns repeat every round. -/
@[simp] theorem turn_add_two (j : Nat) : turn (j + 2) = turn j := by
  simp [turn, Nat.add_mod_right]

/-- Each round starts with the server's half. -/
@[simp] theorem turn_two_mul (k : Nat) : turn (2 * k) = .server := by
  simp [turn]

/-- Each round ends with the client's half. -/
@[simp] theorem turn_two_mul_add_one (k : Nat) : turn (2 * k + 1) = .client := by
  simp [turn, Nat.add_mod]

/-- Consecutive halves belong to the two peers in turn. -/
theorem turn_succ (j : Nat) : turn (j + 1) = (turn j).other := by
  rcases Nat.mod_two_eq_zero_or_one j with h | h <;>
    simp [turn, h, Nat.succ_mod_two_eq_zero_iff, Nat.succ_mod_two_eq_one_iff, Side.other]

/-- A round succeeds exactly when the server's half and then the client's half do. -/
theorem Driver.round_eq_some {d d' : Driver} {statusS statusC : String} :
    d.round = some (d', statusS, statusC) ↔
      ∃ d₁, d.half .server = some (d₁, statusS) ∧ d₁.half .client = some (d', statusC) := by
  simp only [Driver.round, Option.bind_eq_bind, Option.bind_eq_some, Option.pure_def,
    Option.some.injEq, Prod.mk.injEq, Prod.exists]
  constructor
  · rintro ⟨d₁, s₁, h₁, d₂, s₂, h₂, rfl, rfl, rfl⟩
    exact ⟨d₁, h₁, h₂⟩
  · rintro ⟨d₁, h₁, h₂⟩
    exact ⟨d₁, statusS, h₁, d', statusC, h₂, rfl, rfl, rfl⟩

/-- After one round, the halves go on from the state the round reached. -/
theorem Driver.play_add_two {d d' : Driver} {statusS statusC : String}
    (h : d.round = some (d', statusS, statusC)) : ∀ j, d.play (j + 2) = d'.play j
  | 0 => by
    obtain ⟨d₁, h₁, h₂⟩ := Driver.round_eq_some.mp h
    simp [Driver.play, turn, h₁, h₂]
  | j + 1 => by
    rw [show j + 1 + 2 = j + 2 + 1 from rfl, Driver.play, Driver.play_add_two h j, turn_add_two]
    rfl

/-! ## Scenarios -/

/-- `make_args(init_c2s, init_s2c, final_c2s, final_s2c)`: the server's and the client's
`Args`. -/
def makeArgs (initC2s initS2c finalC2s finalS2c : Channel) : Args × Args :=
  (⟨initS2c, initC2s, finalS2c, finalC2s⟩, ⟨initC2s, initS2c, finalC2s, finalC2s⟩)

/-- `make_requirements(init_c2s, init_s2c, final_c2s, final_s2c, isolated)`: each peer
sends on its own direction of both channel pairs and receives on the other. -/
def makeRequirements (initC2s initS2c finalC2s finalS2c : Channel) (isolated : Bool) :
    List Link × List Link :=
  ([⟨initS2c.name, initS2c, true, false, false, true⟩,
      ⟨initC2s.name, initC2s, false, true, false, true⟩,
      ⟨finalS2c.name, finalS2c, true, false, isolated, true⟩,
      ⟨finalC2s.name, finalC2s, false, true, isolated, true⟩],
    [⟨initC2s.name, initC2s, true, false, false, true⟩,
      ⟨initS2c.name, initS2c, false, true, false, true⟩,
      ⟨finalC2s.name, finalC2s, true, false, isolated, true⟩,
      ⟨finalS2c.name, finalS2c, false, true, isolated, true⟩])

/-- The channel `run_params` builds for one parameter, `Channel(f"{prefix}{d}", d)`. -/
def paramChannel (pfx directionality : String) : Channel :=
  ⟨pfx ++ directionality, directionality⟩

/-- The `Args` of `run_params(params)`. -/
def paramsArgs (initC2s initS2c finalC2s finalS2c : String) : Args × Args :=
  makeArgs (paramChannel "^c2s" initC2s) (paramChannel "^s2c" initS2c)
    (paramChannel "$c2s" finalC2s) (paramChannel "$s2c" finalS2c)

/-- The requirements of `run_params(params)`. -/
def paramsRequirements (initC2s initS2c finalC2s finalS2c : String) : List Link × List Link :=
  makeRequirements (paramChannel "^c2s" initC2s) (paramChannel "^s2c" initS2c)
    (paramChannel "$c2s" finalC2s) (paramChannel "$s2c" finalS2c) true

/-- `run_params(params)` from the counter value `linkIdx`. -/
def runParams (initC2s initS2c finalC2s finalS2c : String) (clientOob : Bool) (linkIdx : Nat) :
    Option (Bool × List (String × String) × Nat) :=
  run (paramsArgs initC2s initS2c finalC2s finalS2c)
    (paramsRequirements initC2s initS2c finalC2s finalS2c) clientOob linkIdx

/-- The arguments of the all-`BIDI` parameters of `run_params`. -/
def bidiArgs : Args × Args :=
  paramsArgs "BIDI" "BIDI" "BIDI" "BIDI"

/-- The requirements of the all-`BIDI` parameters of `run_params`. -/
def bidiRequirements : List Link × List Link :=
  paramsRequirements "BIDI" "BIDI" "BIDI" "BIDI"

/-- The driver of the all-`BIDI` scenario after `start`, from counter 1. -/
def bidiStart : Driver :=
  startRun bidiArgs bidiRequirements true 1

/-- The driver of the all-`BIDI` scenario after the server's first half. -/
def bidiServerHalf : Driver :=
  (bidiStart.play 1).getD bidiStart

/-- The filter of `prune_invalid_params`: a client that creates its first link on a
`C2L` channel must share it out of band. -/
def validParams (initC2s : String) (clientOob : Bool) : Bool :=
  !(initC2s == "C2L" && clientOob == false)

/-- A parameter set of `generate_scenarios`: the `params` dict that `run_params` reads. -/
structure Params where
  initC2s : String
  initS2c : String
  finalC2s : String
  finalS2c : String
  clientOob : Bool
  deriving DecidableEq, Repr

/-- The `directionalities` of `generate_scenarios`. -/
def directionalities : List String :=
  ["BIDI", "C2L", "L2C"]

/-- The parameter sets of `generate_scenarios`, in the order of `it.product` over
`parameter_space`. -/
def parameterSpace : List Params :=
  directionalities.flatMap fun initC2s => directionalities.flatMap fun initS2c =>
    directionalities.flatMap fun finalC2s => directionalities.flatMap fun finalS2c =>
      [true, false].map fun clientOob => ⟨initC2s, initS2c, finalC2s, finalS2c, clientOob⟩

/-- `prune_invalid_params(paramsets)`. -/
def pruneInvalidParams (paramsets : List Params) : List Params :=
  paramsets.filter fun params => validParams params.initC2s params.clientOob

/-- The loop of `generate_scenarios` over `paramsets` from counter `linkIdx`: each set with its
verdict, the counter running on between scenarios. -/
def runScenarios : List Params → Nat → Option (List (Params × Bool))
  | [], _ => some []
  | params :: paramsets, linkIdx => do
    let (success, _, linkIdx) ← runParams params.initC2s params.initS2c params.finalC2s
      params.finalS2c params.clientOob linkIdx
    let verdicts ← runScenarios paramsets linkIdx
    pure ((params, success) :: verdicts)

/-- `generate_scenarios()` from the counter value `linkIdx`. -/
def generateScenarios (linkIdx : Nat) : Option (List (Params × Bool)) :=
  runScenarios (pruneInvalidParams parameterSpace) linkIdx

end Raceboat.States

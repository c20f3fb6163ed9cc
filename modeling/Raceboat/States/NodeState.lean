import Raceboat.States.LinkId

/-!
# Peer state machine

`NodeState` and its `Client` and `Server` variants. A method of one peer
writes its own `links`, the counterpart's `links` (through `other_node`, in
`load_link`) and the module-global `link_idx`; a `Frame` is exactly that
mutable state, so one model of each method serves both peers. The
exception of a dict lookup on a missing key is `none`.
-/

namespace Raceboat.States

/-- What a peer's method reaches: `self.links`, `self.other_node.links` and `link_idx`. -/
structure Frame where
  links : List Link
  other : List Link
  linkIdx : Nat

namespace NodeState

/-- The `new_link` that `load_link` stores for `addr`, once marked ready. -/
def loadedLink (addr : Link) : Link :=
  ⟨addr.link, addr.channel, isSend addr.channel true, isRecv addr.channel true, addr.isolated, true⟩

/-- `NodeState.load_link(addr)`: store the loaded copy, ready, and mark the
counterpart's copy ready. -/
def loadLink (f : Frame) (addr : Link) : Option Frame := do
  let links := insertLink f.links (loadedLink addr)
  let other ← setReady f.other addr.link
  pure { f with links := links, other := other }

/-- `NodeState.create_link(channel, isolated)`: an unready link under the next id. -/
def createLink (f : Frame) (channel : Channel) (isolated : Bool) : Link × Frame :=
  let newLink : Link :=
    ⟨linkId channel.name f.linkIdx, channel, isSend channel false, isRecv channel false,
      isolated, false⟩
  (newLink, { f with linkIdx := f.linkIdx + 1, links := insertLink f.links newLink })

/-- `NodeState.can_send()`. -/
def canSend (links : List Link) : Bool :=
  links.any fun l => l.ready && l.send

/-- `NodeState.satisfies(requirements)`. -/
def satisfies (links requirements : List Link) : Bool :=
  requirements.all fun req => links.any (·.gt req)

/-- `NodeState.is_final_state(required)`. -/
def isFinalState (links required : List Link) : Bool :=
  satisfies links required

/-- `NodeState.finished_or(status, messages)`. -/
def finishedOr (requirements links : List Link) (status : String) (messages : List Link) :
    String × List Link :=
  if isFinalState links requirements then ("FINISHED", messages) else (status, messages)

/-- The test in `step` under which this peer creates the link of an unmet requirement. -/
def isResponsible (required : Link) : Bool :=
  required.channel.directionality == "BIDI" ||
    (required.channel.directionality == "L2C" && required.recv) ||
    (required.channel.directionality == "C2L" && required.send)

/-- The `for required in self.requirements` loop of `step`: an isolated link for
every unmet requirement this peer is responsible for. -/
def createMissing (f : Frame) : List Link → Frame × List Link
  | [] => (f, [])
  | required :: rest =>
    if !(f.links.any (·.gt required)) && isResponsible required then
      let created := createLink f required.channel true
      let r := createMissing created.2 rest
      (r.1, created.1 :: r.2)
    else createMissing f rest

/-- `NodeState.step(msgs)`: load every incoming address, then, if some ready link
can send, create the missing links. -/
def step (requirements : List Link) (f : Frame) (msgs : List Link) :
    Option (Frame × String × List Link) := do
  let f ← msgs.foldlM loadLink f
  let r := if canSend f.links then createMissing f requirements else (f, [])
  if r.2.length > 0 then
    pure (r.1, finishedOr requirements r.1.links "CREATED NEW LINKS" r.2)
  else
    pure (r.1, finishedOr requirements r.1.links "STUCK" [])

end NodeState

open NodeState

/-- `Args(init_send, init_recv, final_send, final_recv)`. -/
structure Args where
  initSend : Channel
  initRecv : Channel
  finalSend : Channel
  finalRecv : Channel

/-- One `if channel.directionality in dirs` branch of `start`: share a
non-isolated link on `channel` out of band. -/
def shareIf (dirs : List String) (channel : Channel) (fa : Frame × List Link) :
    Frame × List Link :=
  if channel.directionality ∈ dirs then
    let created := createLink fa.1 channel false
    (created.2, fa.2 ++ [created.1])
  else fa

/-- `Client.start(args)`. -/
def Client.start (f : Frame) (args : Args) : Frame × List Link :=
  shareIf ["L2C"] args.initRecv (shareIf ["C2L"] args.initSend (f, []))

/-- `Server.start(args)`. -/
def Server.start (f : Frame) (args : Args) : Frame × List Link :=
  shareIf ["C2L"] args.initSend (shareIf ["L2C", "BIDI"] args.initRecv (f, []))

/-! ## The two peers -/

/-- The two peers of a negotiation. -/
inductive Side
  | server
  | client
  deriving DecidableEq, Repr

/-- The counterpart, `other_node`. -/
def Side.other : Side → Side
  | .server => .client
  | .client => .server

/-- The counterpart of the counterpart is the peer itself. -/
@[simp] theorem Side.other_other (s : Side) : s.other.other = s := by
  cases s <;> rfl

/-- No peer is its own counterpart. -/
@[simp] theorem Side.other_ne (s : Side) : s.other ≠ s := by
  cases s <;> decide

/-- A side other than this one is its counterpart. -/
theorem Side.eq_other_of_ne {s side : Side} (h : s ≠ side) : s = side.other := by
  cases s <;> cases side <;> simp_all [Side.other]

/-- A peer: its links dict and its requirements. -/
structure NodeState where
  links : List Link
  requirements : List Link

/-- Both peers and the global `link_idx`. -/
structure World where
  server : NodeState
  client : NodeState
  linkIdx : Nat

/-- The peer on `side`. -/
def World.peer (w : World) : Side → NodeState
  | .server => w.server
  | .client => w.client

/-- What a method of the peer on `side` reaches. -/
def World.frame (w : World) (side : Side) : Frame :=
  ⟨(w.peer side).links, (w.peer side.other).links, w.linkIdx⟩

/-- Write back what a method of the peer on `side` changed. -/
def World.update (w : World) (side : Side) (f : Frame) : World :=
  match side with
  | .server => ⟨{ w.server with links := f.links }, { w.client with links := f.other }, f.linkIdx⟩
  | .client => ⟨{ w.server with links := f.other }, { w.client with links := f.links }, f.linkIdx⟩

/-- The counterpart's frame swaps the two maps of this one. -/
theorem World.frame_other (w : World) (side : Side) :
    w.frame side.other = ⟨(w.frame side).other, (w.frame side).links, w.linkIdx⟩ := by
  cases side <;> rfl

/-- Writing back a frame sets this peer's map to the frame's own map. -/
@[simp] theorem World.links_update_self (w : World) (side : Side) (f : Frame) :
    ((w.update side f).peer side).links = f.links := by
  cases side <;> rfl

/-- Writing back a frame sets the counterpart's map to the frame's other map. -/
@[simp] theorem World.links_update_other (w : World) (side : Side) (f : Frame) :
    ((w.update side f).peer side.other).links = f.other := by
  cases side <;> rfl

/-- Writing back a frame leaves both peers' requirements as they were. -/
@[simp] theorem World.requirements_update (w : World) (side s : Side) (f : Frame) :
    ((w.update side f).peer s).requirements = (w.peer s).requirements := by
  cases side <;> cases s <;> rfl

/-- Writing back a frame sets the global counter to the frame's. -/
@[simp] theorem World.linkIdx_update (w : World) (side : Side) (f : Frame) :
    (w.update side f).linkIdx = f.linkIdx := by
  cases side <;> rfl

/-- `peer.step(msgs)` for the peer on `side`. -/
def World.step (w : World) (side : Side) (msgs : List Link) :
    Option (World × String × List Link) :=
  (NodeState.step (w.peer side).requirements (w.frame side) msgs).map fun r =>
    (w.update side r.1, r.2)

/-- `peer.start(args)` for the peer on `side`. -/
def World.start (w : World) (side : Side) (args : Args) : World × List Link :=
  let r := match side with
    | .server => Server.start (w.frame side) args
    | .client => Client.start (w.frame side) args
  (w.update side r.1, r.2)

/-- Both peers are in their final state, the test of `run`'s loop and result. -/
def World.finished (w : World) : Bool :=
  isFinalState w.server.links w.server.requirements &&
    isFinalState w.client.links w.client.requirements

end Raceboat.States

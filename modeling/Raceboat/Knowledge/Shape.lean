import Raceboat.States.NodeState
import Mathlib.Data.Set.Image

/-!
# What a peer knows: the shapes of its ready links

`Link.__gt__`, `can_send` and `is_final_state` read a peer's links only
through the ready ones, and of those only the channel, the capabilities and
the isolation flag: the shape. An address in flight is read by `load_link`
only through its channel and isolation flag. This module names those
projections and restates the three readers on sets of shapes.
-/

namespace Raceboat.States

open NodeState

/-- A ready link without its id: all that `Link.__gt__` and `can_send` read of it. -/
structure Shape where
  channel : Channel
  send : Bool
  recv : Bool
  isolated : Bool
  deriving DecidableEq, Repr

/-- An address without its id: all that `load_link` reads of it besides the key. -/
structure Addr where
  channel : Channel
  isolated : Bool
  deriving DecidableEq, Repr

/-- The shape of a link. -/
def Link.shape (l : Link) : Shape :=
  ⟨l.channel, l.send, l.recv, l.isolated⟩

/-- The address part of a link. -/
def Link.addr (l : Link) : Addr :=
  ⟨l.channel, l.isolated⟩

/-- The shape of the copy `load_link` stores for an address. -/
def Addr.loaded (a : Addr) : Shape :=
  ⟨a.channel, isSend a.channel true, isRecv a.channel true, a.isolated⟩

/-- The shape of the creator's copy of an address, once it is ready. -/
def Addr.created (a : Addr) : Shape :=
  ⟨a.channel, isSend a.channel false, isRecv a.channel false, a.isolated⟩

/-- `Link.__gt__` of a ready link of this shape. -/
def Shape.gt (s : Shape) (other : Link) : Bool :=
  s.channel.name == other.channel.name && (!other.isolated || s.isolated) &&
    (!other.send || s.send) && (!other.recv || s.recv)

/-- The shapes of the ready links of a map. -/
def readyShapes (links : List Link) : Set Shape :=
  {s | ∃ l ∈ links, l.ready = true ∧ l.shape = s}

/-- The addresses of a list of links. -/
def addrs (msgs : List Link) : Set Addr :=
  {a | ∃ l ∈ msgs, l.addr = a}

/-- Some ready link of these shapes satisfies `req`. -/
def Sat (S : Set Shape) (req : Link) : Prop :=
  ∃ s ∈ S, s.gt req = true

/-- Some ready link of these shapes can send. -/
def CanSend (S : Set Shape) : Prop :=
  ∃ s ∈ S, s.send = true

/-- `gt` is readiness together with the order on shapes. -/
theorem Link.gt_eq (l req : Link) : l.gt req = (l.ready && l.shape.gt req) := by
  simp only [Link.gt, Shape.gt, Link.shape, Bool.and_assoc]

/-- A loaded link has the loaded shape of its address. -/
@[simp] theorem loadedLink_shape (a : Link) : (loadedLink a).shape = a.addr.loaded := rfl

/-- A loaded link is ready. -/
@[simp] theorem loadedLink_ready (a : Link) : (loadedLink a).ready = true := rfl

/-- An address is sent when some message carries it. -/
@[simp] theorem mem_addrs {msgs : List Link} {a : Addr} :
    a ∈ addrs msgs ↔ ∃ l ∈ msgs, l.addr = a :=
  Iff.rfl

/-- No message carries no address. -/
@[simp] theorem addrs_nil : addrs [] = ∅ := by
  ext a
  simp

/-- The addresses of a message list, one message at a time. -/
@[simp] theorem addrs_cons (l : Link) (msgs : List Link) :
    addrs (l :: msgs) = insert l.addr (addrs msgs) := by
  ext a
  simp only [mem_addrs, Set.mem_insert_iff, List.mem_cons, or_and_right, exists_or, exists_eq_left]
  exact or_congr_left eq_comm

/-- The addresses of two message lists together. -/
@[simp] theorem addrs_append (l₁ l₂ : List Link) : addrs (l₁ ++ l₂) = addrs l₁ ∪ addrs l₂ := by
  ext a
  simp [or_and_right, exists_or]

/-- A message list carries no address exactly when it is empty. -/
theorem addrs_eq_empty {msgs : List Link} : addrs msgs = ∅ ↔ msgs = [] := by
  cases msgs with
  | nil => simp
  | cons l msgs => simpa using (Set.insert_nonempty _ _).ne_empty

/-- Message lists with the same addresses in order carry the same set of them. -/
theorem addrs_map {l₁ l₂ : List Link} (h : l₁.map Link.addr = l₂.map Link.addr) :
    addrs l₁ = addrs l₂ := by
  ext a
  simpa using congrArg (a ∈ ·) h

/-! ## The readers of a map, on its ready shapes -/

/-- The code's `any` test over links is satisfaction by their ready shapes. -/
theorem any_gt_iff {links : List Link} {req : Link} :
    links.any (·.gt req) = true ↔ Sat (readyShapes links) req := by
  simp only [List.any_eq_true, Link.gt_eq, Bool.and_eq_true, Sat, readyShapes]
  constructor
  · rintro ⟨l, hl, hr, hg⟩
    exact ⟨l.shape, ⟨l, hl, hr, rfl⟩, hg⟩
  · rintro ⟨_, ⟨l, hl, hr, rfl⟩, hg⟩
    exact ⟨l, hl, hr, hg⟩

/-- The code's `can_send` is `CanSend` of the ready shapes. -/
theorem canSend_iff {links : List Link} : canSend links = true ↔ CanSend (readyShapes links) := by
  simp only [canSend, List.any_eq_true, Bool.and_eq_true, CanSend, readyShapes]
  constructor
  · rintro ⟨l, hl, hr, hs⟩
    exact ⟨l.shape, ⟨l, hl, hr, rfl⟩, hs⟩
  · rintro ⟨_, ⟨l, hl, hr, rfl⟩, hs⟩
    exact ⟨l, hl, hr, hs⟩

/-- The code's `is_final_state` says the ready shapes satisfy every requirement. -/
theorem isFinalState_iff {links reqs : List Link} :
    isFinalState links reqs = true ↔ ∀ req ∈ reqs, Sat (readyShapes links) req := by
  simp only [isFinalState, satisfies, List.all_eq_true, any_gt_iff]

/-- Two maps with the same ready shapes satisfy the same requirements. -/
theorem any_gt_congr {l₁ l₂ : List Link} (h : readyShapes l₁ = readyShapes l₂) (req : Link) :
    l₁.any (·.gt req) = l₂.any (·.gt req) := by
  rw [Bool.eq_iff_iff, any_gt_iff, any_gt_iff, h]

/-- A requirement met by some shapes is met by more shapes. -/
theorem Sat.mono {S T : Set Shape} {req : Link} (h : Sat S req) (hST : S ⊆ T) : Sat T req :=
  let ⟨s, hs, hg⟩ := h
  ⟨s, hST hs, hg⟩

/-- A peer that can send keeps that ability when it holds more shapes. -/
theorem CanSend.mono {S T : Set Shape} (h : CanSend S) (hST : S ⊆ T) : CanSend T :=
  let ⟨s, hs, hg⟩ := h
  ⟨s, hST hs, hg⟩

/-! ## Ready shapes under the writes of the dict -/

/-- Lists with the same members have the same ready shapes. -/
theorem readyShapes_congr {l₁ l₂ : List Link} (h : ∀ x, x ∈ l₁ ↔ x ∈ l₂) :
    readyShapes l₁ = readyShapes l₂ := by
  ext s
  exact exists_congr fun x => and_congr_left' (h x)

/-- A ready link adds its shape. -/
theorem readyShapes_cons_ready {l : Link} (links : List Link) (h : l.ready = true) :
    readyShapes (l :: links) = insert l.shape (readyShapes links) := by
  ext s
  simp only [readyShapes, Set.mem_setOf_eq, Set.mem_insert_iff, List.mem_cons, or_and_right,
    exists_or, exists_eq_left, h, true_and]
  exact or_congr_left eq_comm

/-- An unready link adds no shape. -/
theorem readyShapes_cons_unready {l : Link} (links : List Link) (h : l.ready = false) :
    readyShapes (l :: links) = readyShapes links := by
  ext s
  simp [readyShapes, h]

/-- Storing a link whose key holds nothing else adds it to the map. -/
theorem mem_insertLink_of_forall {links : List Link} {l : Link}
    (h : ∀ y ∈ links, y.link = l.link → y = l) (x : Link) :
    x ∈ insertLink links l ↔ x ∈ l :: links := by
  rw [mem_insertLink, List.mem_cons]
  by_cases hx : x.link = l.link
  · constructor
    · rintro (rfl | ⟨-, hne⟩)
      · exact .inl rfl
      · exact absurd hx hne
    · rintro (rfl | hx')
      · exact .inl rfl
      · exact .inl (h x hx' hx)
  · simp [hx, fun he : x = l => hx (he ▸ rfl)]

/-- Inserting a link whose id no other link shares adds its shape as a cons would. -/
theorem readyShapes_insertLink {links : List Link} {l : Link}
    (h : ∀ y ∈ links, y.link = l.link → y = l) :
    readyShapes (insertLink links l) = readyShapes (l :: links) :=
  readyShapes_congr (mem_insertLink_of_forall h)

/-- Marking the entries of a held key ready adds their common shape. -/
theorem readyShapes_markReady {links : List Link} {k : String} {s : Shape}
    (hk : hasKey links k = true) (h : ∀ y ∈ links, y.link = k → y.shape = s) :
    readyShapes (markReady links k) = insert s (readyShapes links) := by
  obtain ⟨y, hy, hyk⟩ := hasKey_iff.mp hk
  have hmem : { y with ready := true } ∈ markReady links k :=
    mem_markReady.mpr (.inl ⟨y, hy, hyk, rfl⟩)
  ext s'
  simp only [readyShapes, Set.mem_insert_iff, Set.mem_setOf_eq]
  constructor
  · rintro ⟨x, hx, hr, rfl⟩
    rcases mem_markReady.mp hx with ⟨z, hz, hzk, rfl⟩ | ⟨hx, -⟩
    · exact .inl (h z hz hzk)
    · exact .inr ⟨x, hx, hr, rfl⟩
  · rintro (rfl | ⟨x, hx, hr, rfl⟩)
    · exact ⟨_, hmem, rfl, h y hy hyk⟩
    · by_cases hxk : x.link = k
      · exact ⟨_, hmem, rfl, (h y hy hyk).trans (h x hx hxk).symm⟩
      · exact ⟨x, mem_markReady.mpr (.inr ⟨hx, hxk⟩), hr, rfl⟩

end Raceboat.States

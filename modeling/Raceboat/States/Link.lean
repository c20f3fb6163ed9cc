import Mathlib.Data.List.Basic

/-!
# Channels, links and the links dict

The data model of `states.py`. A channel's directionality is whatever string
the caller gives it: `is_send` falls through to `None` on a string other than
`BIDI`, `L2C` and `C2L`, and every reader of the flag treats that `None` as
false. A peer's `links` dict is insertion ordered and stores each link under
the link's own `link` field, so it is modelled by the list of its values.
-/

namespace Raceboat.States

/-- `Channel(name, directionality)`. -/
structure Channel where
  name : String
  directionality : String
  deriving DecidableEq, Repr

/-- `Link(link, channel, send, recv, isolated, ready)`: a held link, an address in
flight, or a requirement used as a pattern. -/
structure Link where
  link : String
  channel : Channel
  send : Bool
  recv : Bool
  isolated : Bool
  ready : Bool
  deriving DecidableEq, Repr

/-- `is_send(channel, loaded)`. -/
def isSend (channel : Channel) (loaded : Bool) : Bool :=
  if channel.directionality = "BIDI" then true
  else if channel.directionality = "L2C" then loaded
  else if channel.directionality = "C2L" then !loaded
  else false

/-- `is_recv(channel, loaded)`. -/
def isRecv (channel : Channel) (loaded : Bool) : Bool :=
  isSend channel (!loaded)

/-- `Link.__gt__`: the held link `self` satisfies the requirement `other`. -/
def Link.gt (self other : Link) : Bool :=
  self.ready && self.channel.name == other.channel.name && (!other.isolated || self.isolated) &&
    (!other.send || self.send) && (!other.recv || self.recv)

/-! ## The links dict -/

/-- `k in links`. -/
def hasKey (links : List Link) (k : String) : Bool :=
  links.any (·.link == k)

/-- `links[l.link] = l`: an existing entry is replaced in place, a new key is appended. -/
def insertLink (links : List Link) (l : Link) : List Link :=
  if hasKey links l.link then links.map fun x => if x.link = l.link then l else x
  else links ++ [l]

/-- The write of `links[k].ready = True` on the entries under `k`. -/
def markReady (links : List Link) (k : String) : List Link :=
  links.map fun x => if x.link = k then { x with ready := true } else x

/-- `links[k].ready = True`; `none` is the `KeyError` of a missing key. -/
def setReady (links : List Link) (k : String) : Option (List Link) :=
  if hasKey links k then some (markReady links k) else none

/-- A key is in the links dict exactly when some entry carries it. -/
@[simp] theorem hasKey_iff {links : List Link} {k : String} :
    hasKey links k = true ↔ ∃ l ∈ links, l.link = k := by
  simp [hasKey]

/-- Storing a link replaces exactly the entries under its key. -/
theorem mem_insertLink {links : List Link} {l x : Link} :
    x ∈ insertLink links l ↔ x = l ∨ x ∈ links ∧ x.link ≠ l.link := by
  unfold insertLink
  split
  · rename_i h
    obtain ⟨y, hy, hk⟩ := hasKey_iff.mp h
    simp only [List.mem_map]
    constructor
    · rintro ⟨z, hz, rfl⟩
      split <;> simp_all
    · rintro (rfl | ⟨hx, hne⟩)
      · exact ⟨y, hy, by simp [hk]⟩
      · exact ⟨x, hx, by simp [hne]⟩
  · rename_i h
    simp only [hasKey_iff, not_exists, not_and] at h
    simp only [List.mem_append, List.mem_singleton]
    constructor
    · rintro (hx | rfl)
      · exact .inr ⟨hx, h x hx⟩
      · exact .inl rfl
    · rintro (rfl | ⟨hx, -⟩)
      · exact .inr rfl
      · exact .inl hx

/-- Marking ready touches the entries under `k` and only their flag. -/
theorem mem_markReady {links : List Link} {k : String} {x : Link} :
    x ∈ markReady links k ↔
      (∃ y ∈ links, y.link = k ∧ x = { y with ready := true }) ∨ x ∈ links ∧ x.link ≠ k := by
  simp only [markReady, List.mem_map]
  constructor
  · rintro ⟨y, hy, rfl⟩
    by_cases hk : y.link = k
    · exact .inl ⟨y, hy, hk, by simp [hk]⟩
    · exact .inr ⟨by simpa [hk] using hy, by simp [hk]⟩
  · rintro (⟨y, hy, hk, rfl⟩ | ⟨hx, hne⟩)
    · exact ⟨y, hy, by simp [hk]⟩
    · exact ⟨x, hx, by simp [hne]⟩

/-- Marking a held key ready never raises. -/
theorem setReady_of_hasKey {links : List Link} {k : String} (h : hasKey links k = true) :
    setReady links k = some (markReady links k) := by
  simp [setReady, h]

/-- Storing a link adds its key and keeps the others. -/
@[simp] theorem hasKey_insertLink {links : List Link} {l : Link} {k : String} :
    hasKey (insertLink links l) k = true ↔ k = l.link ∨ hasKey links k = true := by
  simp only [hasKey_iff, mem_insertLink]
  constructor
  · rintro ⟨x, (rfl | ⟨hx, -⟩), rfl⟩
    · exact .inl rfl
    · exact .inr ⟨x, hx, rfl⟩
  · rintro (rfl | ⟨x, hx, rfl⟩)
    · exact ⟨l, .inl rfl, rfl⟩
    · by_cases he : x.link = l.link
      · exact ⟨l, .inl rfl, he.symm⟩
      · exact ⟨x, .inr ⟨hx, he⟩, rfl⟩

/-- Marking entries ready leaves the keys as they were. -/
@[simp] theorem hasKey_markReady {links : List Link} {k k' : String} :
    hasKey (markReady links k) k' = hasKey links k' := by
  simp only [hasKey, markReady, List.any_map]
  congr 1
  funext x
  by_cases h : x.link = k <;> simp [h]

end Raceboat.States

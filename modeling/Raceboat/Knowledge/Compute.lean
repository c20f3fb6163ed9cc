import Raceboat.Knowledge.Simulation

/-!
# The knowledge model, computed

`Knowledge` holds sets: they say what the peers know, but nothing evaluates
them. `KnowledgeList` holds the same in lists, with a half-round and a final
test that run, and each of its operations is `Knowledge`'s on the sets of its
lists. A verdict read on knowledge is thus decided by evaluating a few list
operations, without the link ids, maps and strings of the driver itself.
-/

namespace Raceboat.States

open NodeState

/-- `wanted`, as the list of addresses a peer whose ready shapes are `S` creates. -/
def wantedList (reqs : List Link) (S : List Shape) : List Addr :=
  if S.any (·.send) then
    (reqs.filter fun r => isResponsible r && !S.any (·.gt r)).map fun r => ⟨r.channel, true⟩
  else []

/-- Satisfaction by a list of shapes is the `any` test over it. -/
theorem sat_iff_any {S : List Shape} {req : Link} :
    Sat {s | s ∈ S} req ↔ S.any (·.gt req) = true := by
  simp [Sat]

/-- The list of wanted addresses has the members of `wanted`. -/
theorem mem_wantedList {reqs : List Link} {S : List Shape} {a : Addr} :
    a ∈ wantedList reqs S ↔ a ∈ wanted reqs {s | s ∈ S} := by
  have hc : CanSend {s | s ∈ S} ↔ S.any (·.send) = true := by simp [CanSend]
  simp only [wantedList, wanted, Set.mem_setOf_eq, hc, sat_iff_any]
  split
  · simp only [List.mem_map, List.mem_filter, Bool.and_eq_true, Bool.not_eq_true', true_and, *]
    constructor
    · rintro ⟨r, ⟨hr, hresp, hsat⟩, rfl⟩
      exact ⟨r, hr, hresp, by simp [hsat], rfl⟩
    · rintro ⟨r, hr, hresp, hsat, rfl⟩
      exact ⟨r, ⟨hr, hresp, by simpa using hsat⟩, rfl⟩
  · simp [*]

/-- Each peer's ready shapes, and the addresses pending for it, as lists. -/
structure KnowledgeList where
  shapes : Side → List Shape
  inbox : Side → List Addr

namespace KnowledgeList

/-- The sets of the lists. -/
def toKnowledge (K : KnowledgeList) : Knowledge :=
  ⟨fun s => {x | x ∈ K.shapes s}, fun s => {a | a ∈ K.inbox s}⟩

variable (reqs : Side → List Link)

/-- `Knowledge.half` on lists. -/
def half (K : KnowledgeList) (side : Side) : KnowledgeList :=
  let loaded := K.shapes side ++ (K.inbox side).map Addr.loaded
  ⟨fun s => if s = side then loaded else K.shapes s ++ (K.inbox side).map Addr.created,
    fun s => if s = side then [] else K.inbox s ++ wantedList (reqs side) loaded⟩

/-- `Knowledge.play` on lists. -/
def play (K : KnowledgeList) : Nat → KnowledgeList
  | 0 => K
  | j + 1 => (K.play j).half reqs (turn j)

/-- `Knowledge.Final`, decided: each peer's shapes satisfy each of its requirements. -/
def final (K : KnowledgeList) : Bool :=
  [Side.server, .client].all fun s => (reqs s).all fun req => (K.shapes s).any (·.gt req)

variable {reqs}

/-- The members of an append of a mapped list. -/
theorem setOf_mem_append_map {α β : Type} (xs : List α) (ys : List β) (f : β → α) :
    {x | x ∈ xs ++ ys.map f} = {x | x ∈ xs} ∪ f '' {y | y ∈ ys} := by
  ext x
  simp [eq_comm]

/-- The computable half refines the abstract one. -/
theorem half_toKnowledge (K : KnowledgeList) (side : Side) :
    (K.half reqs side).toKnowledge = K.toKnowledge.half reqs side := by
  refine Knowledge.ext (funext fun s => ?_) (funext fun s => ?_) <;>
    by_cases h : s = side <;>
    simp only [half, toKnowledge, Knowledge.half, h, if_true, if_false, setOf_mem_append_map]
  · simp
  · ext a
    simp only [Set.mem_setOf_eq, List.mem_append, Set.mem_union]
    rw [mem_wantedList, setOf_mem_append_map]

/-- The computable play refines the abstract one. -/
theorem play_toKnowledge (K : KnowledgeList) :
    ∀ j, (K.play reqs j).toKnowledge = K.toKnowledge.play reqs j
  | 0 => rfl
  | j + 1 => by rw [play, Knowledge.play, half_toKnowledge, play_toKnowledge K j]

/-- The computable final test decides `Final`. -/
theorem final_iff (K : KnowledgeList) : K.final reqs = true ↔ K.toKnowledge.Final reqs := by
  simp only [final, Knowledge.Final, toKnowledge, sat_iff_any, List.all_eq_true]
  exact ⟨fun h s => h s (by cases s <;> simp), fun h s _ => h s⟩

end KnowledgeList

/-- What the peers know in a state of the driver, as lists. -/
def Driver.knowledgeList (d : Driver) : KnowledgeList :=
  ⟨fun s => ((d.world.peer s).links.filter (·.ready)).map Link.shape,
    fun s => (d.inbox s).map Link.addr⟩

/-- A driver's computable knowledge reads back as its knowledge. -/
theorem Driver.knowledgeList_toKnowledge (d : Driver) :
    d.knowledgeList.toKnowledge = d.knowledge := by
  refine Knowledge.ext (funext fun s => ?_) (funext fun s => ?_) <;> ext x <;>
    simp [Driver.knowledgeList, KnowledgeList.toKnowledge, Driver.knowledge, readyShapes,
      and_assoc]

end Raceboat.States

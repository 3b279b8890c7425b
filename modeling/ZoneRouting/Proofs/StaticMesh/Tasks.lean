import ZoneRouting.Proofs.StaticMesh.Letters

set_option autoImplicit false

namespace ZoneRouting.StaticMesh

variable {n : Nat}

structure Dispatch (M : StaticMesh n) where
  source : Fin n
  target : Fin n
  payload : Bytes
  different : source ≠ target
  connected : M.graph.Reachable source target
  untagged : Kind.ofBytes? payload = none

-- What is on its way while the payload is delivered: the search with the devices it has covered and those it
-- has passed, the answer and the payload on their way along the chain that was found, with the devices of
-- the chain before and after the one that is next, and the payload on its way inside the zone.
inductive Task (n : Nat) where
  | query (covered trace : List (Fin n))
  | answer (before after : List (Fin n))
  | parcel (before after : List (Fin n))
  | payload

-- Searches lead to answers, and answers to parcels; searches get longer, the rest of a chain gets shorter.
def Task.weight : Task n → Nat
  | .query _ trace => 2 * (n + 1) + (n - trace.length)
  | .answer before _ => (n + 1) + before.length
  | .parcel _ after => after.length
  | .payload => 0

-- Nothing but the answer makes the target known to the source, and the target knows the source before.
def Task.Late : Task n → Prop
  | .query .. | .payload => False
  | .answer .. | .parcel .. => True

def Task.Final : Task n → Prop
  | .query .. | .answer .. => False
  | .parcel .. | .payload => True

namespace Dispatch

variable {M : StaticMesh n} (D : M.Dispatch)

structure Chain (c : List (Fin n)) : Prop where
  nodup : c.Nodup
  hops : c.IsChain M.Near
  first : c.head? = some D.source
  last : c.getLast? = some D.target

def query (covered trace : List (Fin n)) : Discovery where
  origin := M.key D.source
  destination := M.name D.target
  sent := M.now
  route := M.names trace
  covered := M.names covered

def answer (c : List (Fin n)) : Acknowledgement where
  route := M.names c
  targetKey := M.key D.target

inductive Errand : Task n → Fin n → Bytes → Prop
  | query (covered trace : List (Fin n)) (v : Fin n) (bytes : Bytes) (far : ¬ M.Near D.source D.target)
      (nodup : trace.Nodup) (first : trace.head? = some D.source) (open' : D.target ∉ trace)
      (hops : (trace ++ [v]).IsChain M.Near) (written : Wire.encode (.discovery (D.query covered trace)) = .ok bytes) :
      Errand (.query covered trace) v bytes
  | answer (before after : List (Fin n)) (v : Fin n) (bytes : Bytes) (far : ¬ M.Near D.source D.target)
      (chain : D.Chain (before ++ v :: after)) (inside : after ≠ [])
      (written : Wire.encode (.acknowledgement (D.answer (before ++ v :: after))) = .ok bytes) :
      Errand (.answer before after) v bytes
  | parcel (before after : List (Fin n)) (v : Fin n) (bytes : Bytes) (chain : D.Chain (before ++ v :: after))
      (inside : before ≠ []) (letter : M.Letter D.source D.target (before ++ v :: after) D.payload bytes) :
      Errand (.parcel before after) v bytes
  | payload : Errand .payload D.target D.payload

-- A search that will find the target: the device it goes to is new to it, and no device that it has covered
-- is closer to the target than that one.
def Hopeful : Task n → Fin n → Prop
  | .query covered trace, v =>
      v ∉ trace ∧ M.graph.Reachable v D.target ∧
        ∀ x ∈ covered ++ trace, M.graph.Reachable x D.target ∧ M.graph.dist v D.target ≤ M.graph.dist x D.target
  | .answer .., _ => True
  | .parcel .., _ | .payload, _ => False

end Dispatch

variable (M : StaticMesh n)

-- A letter between two devices of its trail, and how many devices come after the one that hears it next.
structure Carried (u v : Fin n) (content : Bytes) (left : Nat) (copy : Copy n) : Prop where
  near : M.Near u v
  way : ∃ a b, b.length = left ∧ M.Trail u v (a ++ copy.sender :: copy.receiver :: b) ∧
    M.Letter u v (a ++ copy.sender :: copy.receiver :: b) content copy.bytes

namespace Dispatch

variable {M} (D : M.Dispatch)

inductive Flight (task : Task n) (v : Fin n) (bound : Nat) (copy : Copy n) : Prop
  | carried (u : Fin n) (content : Bytes) (left : Nat) (carried : M.Carried u v content left copy)
      (errand : D.Errand task v content) (bounded : task.weight * (n + 2) + (left + 1) ≤ bound)
  | bare (before after : List (Fin n)) (same : task = .parcel before after) (errand : D.Errand task copy.receiver copy.bytes)
      (here : v = copy.receiver) (bounded : task.weight * (n + 2) ≤ bound)

def Onward (u : Fin n) (task : Task n) (v : Fin n) (bound : Nat) (packet : Packet) : Prop :=
  ∃ x bytes, M.graph.Adj u x ∧ packet = Packet.single (M.name x) bytes ∧ D.Flight task v bound ⟨u, x, bytes⟩

end Dispatch

variable {M} {u v w : Fin n} {e : Engine} {content : Bytes} {packet : Packet} {copy : Copy n} {left : Nat}

theorem length_le_of_nodup {p : List (Fin n)} (nodup : p.Nodup) : p.length ≤ n := by
  have bound := nodup.length_le_card
  rw [Fintype.card_fin] at bound
  exact bound

theorem posted_carried (near : M.Near u v) (posted : M.Posted u v content packet) :
    ∃ x bytes left, M.graph.Adj u x ∧ packet = Packet.single (M.name x) bytes ∧ left + 1 ≤ n ∧
      M.Carried u v content left ⟨u, x, bytes⟩ := by
  obtain ⟨next, rest, bytes, shortest, letter, rfl⟩ := posted
  have short := length_le_of_nodup shortest.nodup
  rw [List.length_cons, List.length_cons] at short
  exact ⟨next, bytes, rest.length, shortest.chain.rel, rfl, by omega, near, [], rest, rfl, shortest.toTrail, letter⟩

theorem posted_onward {D : M.Dispatch} {task : Task n} {bound : Nat} (near : M.Near u v)
    (posted : M.Posted u v content packet) (errand : D.Errand task v content)
    (bounded : (task.weight + 1) * (n + 2) ≤ bound) : ∃ less < bound, D.Onward u task v less packet := by
  obtain ⟨x, bytes, left, adj, same, short, carried⟩ := posted_carried near posted
  rw [Nat.add_mul] at bounded
  exact ⟨_, by omega, x, bytes, adj, same, .carried u content left carried errand (Nat.le_refl _)⟩

theorem carried_passes (carried : M.Carried u v content (left + 1) copy) (ready : M.Ready copy.receiver e)
    (fits : ∀ d ∈ e.receiveWrites M.suite M.now copy.bytes, Wire.Fits d) :
    ∃ x, M.graph.Adj copy.receiver x ∧
      e.receive M.suite M.now copy.bytes = ([Packet.single (M.name x) copy.bytes], e) ∧
      M.Carried u v content left ⟨copy.receiver, x, copy.bytes⟩ := by
  obtain ⟨a, b, length, trail, letter⟩ := carried.way
  cases b with
  | nil => cases length
  | cons x b =>
      have shifted : a ++ copy.sender :: copy.receiver :: x :: b = (a ++ [copy.sender]) ++ copy.receiver :: x :: b := by
        rw [List.append_assoc, List.singleton_append]
      rw [shifted] at trail letter
      have adj : M.graph.Adj copy.receiver x := trail.cut.2.chain.rel
      obtain ⟨m, written, received, writes⟩ := letter_passed ready letter M.settings.maxNestingDepth
      unfold Engine.receiveWrites at fits
      unfold Engine.receive
      rw [ready.settings, writes] at fits
      rw [ready.settings, received]
      refine ⟨x, adj, ?_, carried.near, a ++ [copy.sender], b, Nat.succ.inj length, trail, letter⟩
      rcases relay_near ready (near_of_adj adj) written fits with ⟨_, relayed⟩ | ⟨far, _⟩
      · exact relayed
      · exact absurd adj far

theorem carried_arrives (carried : M.Carried u v content 0 copy) (ready : M.Ready copy.receiver e) :
    copy.receiver = v ∧
      e.receive M.suite M.now copy.bytes = e.receiveWithin M.suite M.now M.settings.maxNestingDepth content ∧
      e.receiveWrites M.suite M.now copy.bytes =
        e.receiveWithinWrites M.suite M.now M.settings.maxNestingDepth content := by
  obtain ⟨a, b, length, trail, letter⟩ := carried.way
  rw [List.length_eq_zero_iff.mp length] at trail letter
  have home : copy.receiver = v := by
    have last := trail.last
    rw [List.getLast?_append_of_ne_nil _ (by simp)] at last
    exact Option.some.inj last
  subst home
  obtain ⟨received, writes⟩ := letter_opened ready letter (ready.keys u carried.near.symm) M.settings.maxNestingDepth
  refine ⟨rfl, ?_, ?_⟩
  · rw [Engine.receive, ready.settings, received]
  · rw [Engine.receiveWrites, ready.settings, writes]

end ZoneRouting.StaticMesh

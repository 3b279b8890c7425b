import ZoneRouting.Proofs.Engine.Dispatch
import ZoneRouting.Proofs.Engine.Order
import ZoneRouting.Proofs.Writes

set_option autoImplicit false

namespace ZoneRouting.Engine

-- The device has parked a payload, and apart from that nothing has changed that can be seen at that time: no other parked
-- payload, no search, no key, no usable route, and neither of the packets to send nor of the payloads that came in.
structure Stranded (now : UInt64) (target : Identifier) (payload : Bytes) (e e' : Engine) : Prop where
  parked : ∀ k, e'.parkedFor k = if k = target then e.parkedFor target ++ [payload] else e.parkedFor k
  pending : e'.pending = e.pending
  keyring : e'.keyring = e.keyring
  zone : ∀ d, e.table.book.Quiet now d e'.table.book
  discovered : ∀ d, e.cache.book.Quiet now d e'.cache.book
  outgoing : e'.outgoing = e.outgoing
  incoming : e'.incoming = e.incoming

def stranger (k : Nat) : Identifier := ⟨⟨BitVec.ofNat _ (k + 100)⟩⟩

def hail (route : Route) (k : Nat) : Advertisement where
  origin := stranger k
  key := (numbered (1 : Fin 4)).publicKey Suite.plain
  route := route
  interval := 100000

def between : Route := [(numbered (1 : Fin 4)).id, (numbered (2 : Fin 4)).id]

def trail (k : Nat) : Route := (numbered (0 : Fin 4)).id :: between.reverse ++ [stranger k]

def crowded : Nat → Engine
  | 0 => lone
  | n + 1 => ((crowded n).receive Suite.plain 0 (octetsOf (.advertisement (hail between n)))).2

structure Crowd (n : Nat) (e : Engine) : Prop where
  id : e.id = (numbered (0 : Fin 4)).id
  borderHops : e.table.borderHops = 3
  candidates : e.table.candidates = (List.range n).map stranger
  known : ∀ k < n, e.table.book.bucket (stranger k) = [⟨trail k, deadline 0 100000⟩]
  others : ∀ d, (∀ k < n, d ≠ stranger k) → e.table.book.bucket d = []
  cache : e.cache.book = RouteBook.empty
  parked : e.parked = Directory.empty
  pending : e.pending = Directory.empty

-- More border nodes than a query has room for, and fewer than there are identifiers.
def many : Nat := 1000000

variable {S : Suite} {now : UInt64} {e e' : Engine} {target : Identifier} {payload : Bytes} {n k : Nat}

theorem stranger_value (few : n < many) : (stranger n).octets.value.toNat = n + 100 := by
  have wide : many + 100 < 2 ^ (8 * 16) := by decide
  rw [stranger, BitVec.toNat_ofNat]
  exact Nat.mod_eq_of_lt (by omega)

theorem stranger_inj (few : n < many) (few' : k < many) (same : stranger n = stranger k) : n = k := by
  have value := stranger_value few
  rw [same, stranger_value few'] at value
  omega

theorem stranger_apart (few : n < many) {id : Identifier} (low : id.octets.value.toNat < 100) : stranger n ≠ id := by
  rintro rfl
  rw [stranger_value few] at low
  omega

theorem stranger_new (few : n < many) (u : Fin 4) : stranger n ≠ (numbered u).id :=
  stranger_apart few (by revert u; decide)

theorem crowd_lone : Crowd 0 lone where
  id := rfl
  borderHops := rfl
  candidates := rfl
  known _ none := absurd none (Nat.not_lt_zero _)
  others _ _ := rfl
  cache := rfl
  parked := rfl
  pending := rfl

theorem hail_handled (few : n < many) (e : Engine) :
    e.receive Suite.plain 0 (octetsOf (.advertisement (hail between n))) = e.handleAdvertisement 0 (hail between n) := by
  have small : (Wire.body (.advertisement (hail between n))).length ≤ Wire.maxBody := by
    rw [Wire.length_body_advertisement]
    exact (by decide : 104 + 24 * 2 ≤ Wire.maxBody)
  have written := Wire.encode_small small
  have checked : Wire.check (.advertisement (hail between n)) = .ok () := by
    refine if_neg ?_
    have named : between.any Identifier.isNil = false := by decide
    rw [List.any_cons, hail, named, Bool.or_false, Identifier.isNil, decide_eq_true_eq]
    exact stranger_apart few (by decide)
  rw [receive, octetsOf, written]
  exact (receive_handle Suite.plain 0 _ written checked rfl).1

theorem crowded_reachable (n : Nat) : (crowded n).Reachable Suite.plain := by
  induction n with
  | zero => exact .start _ _ _
  | succ n ih => exact .call _ (.receive 0 _) ih

theorem Crowd.step (crowd : Crowd n e) (orderly : e.Orderly) (few : n < many) :
    Crowd (n + 1) (e.receive Suite.plain 0 (octetsOf (.advertisement (hail between n)))).2 := by
  have apart := stranger_new few
  have fresh : ¬ (stranger n = e.id ∨ e.id ∈ between ∨ stranger n ∈ between ∨ ¬ Route.LoopFree between) := by
    rw [crowd.id]
    simp [between, Route.LoopFree, apart, numbered_distinct.eq_iff]
  obtain ⟨ring, learned⟩ : ∃ ring, (e.handleAdvertisement 0 (hail between n)).2 =
      { e with table := (e.table.learn (hail (between ++ [e.id]) n) 0).2, keyring := ring } := by
    obtain ⟨ring, _, learned⟩ := @advertisement_learned 0 (hail between n) e fresh
    exact ⟨ring, learned⟩
  have way : ZoneTable.routeTo (hail (between ++ [e.id]) n) = trail n := by
    rw [crowd.id]
    rfl
  have taken : (between ++ [e.id]).getLast? = some e.table.owner ∧
      Route.LoopFree (ZoneTable.routeTo (hail (between ++ [e.id]) n)) := by
    refine ⟨orderly.owner.symm ▸ List.getLast?_concat, ?_⟩
    rw [way]
    simp [trail, between, Route.LoopFree, (apart _).symm, numbered_distinct.eq_iff]
  obtain ⟨book, candidates⟩ := ZoneTable.learn_taken (a := hail (between ++ [e.id]) n) 0 taken
  change _ = e.table.book.store (stranger n) (ZoneTable.routeTo (hail (between ++ [e.id]) n)) (deadline 0 100000) at book
  have unheard : ∀ k < n, stranger n ≠ stranger k := fun k less same =>
    absurd (stranger_inj few (Nat.lt_trans less few) same) (Nat.ne_of_gt less)
  have absent : stranger n ∉ e.table.candidates := by
    rw [crowd.candidates]
    intro member
    obtain ⟨k, less, same⟩ := List.mem_map.mp member
    exact unheard k (List.mem_range.mp less) same.symm
  rw [way] at book candidates
  have buckets : ∀ d, (e.table.learn (hail (between ++ [e.id]) n) 0).2.book.bucket d =
      if d = stranger n then [⟨trail n, deadline 0 100000⟩] else e.table.book.bucket d := by
    intro d
    rw [book, RouteBook.bucket_store, crowd.others _ unheard]
    rfl
  rw [hail_handled few, learned]
  constructor
  case id => exact crowd.id
  case borderHops => exact (ZoneTable.learn_border_hops _ _ 0).trans crowd.borderHops
  case candidates =>
    have long : (trail n).length = e.table.borderHops + 1 := crowd.borderHops ▸ rfl
    refine (candidates.trans (if_pos ⟨long, absent⟩)).trans ?_
    rw [crowd.candidates, List.range_succ, List.map_append]
    rfl
  case known =>
    intro k less
    refine (buckets _).trans ?_
    rcases Nat.lt_succ_iff_lt_or_eq.mp less with before | rfl
    · rw [if_neg (unheard k before).symm]
      exact crowd.known k before
    · exact if_pos rfl
  case others =>
    intro d other
    refine (buckets d).trans ?_
    rw [if_neg (other n (Nat.lt_succ_self n))]
    exact crowd.others d fun k less => other k (Nat.lt_succ_of_lt less)
  case cache => exact crowd.cache
  case parked => exact crowd.parked
  case pending => exact crowd.pending

theorem crowded_crowd (few : n ≤ many) : Crowd n (crowded n) := by
  induction n with
  | zero => exact crowd_lone
  | succ n ih => exact (ih (Nat.le_of_succ_le few)).step (reachable_orderly (crowded_reachable n)) few

theorem Crowd.border_nodes (crowd : Crowd n e) (few : n ≤ many) : (e.borderNodes 0 [e.id]).1.length = n := by
  have all : ∀ node ∈ e.table.candidates, ZoneTable.asked [e.id] 0 e.table.borderHops e.table.book node = true := by
    intro node member
    rw [crowd.candidates] at member
    obtain ⟨k, less, rfl⟩ := List.mem_map.mp member
    have less := List.mem_range.mp less
    have found : (e.table.book.lookup (stranger k) 0).1 = some (trail k) := by
      rw [RouteBook.lookup_shortest, crowd.known k less]
      rfl
    rw [ZoneTable.asked, found, crowd.borderHops, crowd.id, Option.any_some]
    exact decide_eq_true ⟨rfl, mt List.mem_singleton.mp (stranger_new (Nat.lt_of_lt_of_le less few) 0)⟩
  have border : (e.borderNodes 0 [e.id]).1 = e.table.candidates :=
    (ZoneTable.border_nodes_asked e.table [e.id] 0).trans (List.filter_eq_self.mpr all)
  rw [border, crowd.candidates, List.length_map, List.length_range]

theorem Crowd.shut (crowd : Crowd n e) (few : n ≤ many) (octets : Nat) : ¬ e.Open Suite.plain 0 far octets := by
  have away : ∀ k < n, far ≠ stranger k := fun k less => (stranger_new (Nat.lt_of_lt_of_le less few) 3).symm
  rintro (⟨route, found, _⟩ | ⟨own, border, rest, found, _⟩)
  · have missing : (e.table.book.lookup far 0).1 = none := by
      rw [RouteBook.lookup_shortest, crowd.others far away]
      rfl
    cases missing.symm.trans found
  · have missing : (e.cache.book.lookup far 0).1 = none := by
      rw [crowd.cache]
      rfl
    cases missing.symm.trans found

theorem Crowd.idle (crowd : Crowd n e) (now : UInt64) (target : Identifier) : e.searching now target = false := by
  rw [searching, crowd.pending]
  rfl

theorem Crowd.large (crowd : Crowd n e) (few : n ≤ many) (enough : 2725 ≤ n) : Wire.maxBody < e.queryLength 0 := by
  have limit : Wire.maxBody = 65536 := rfl
  rw [queryLength, crowd.border_nodes few, limit]
  omega

theorem send_refuses (sized : S.Sized) (reachable : e.Reachable S) (untagged : Kind.ofBytes? payload = none)
    (shut : ¬ e.Open S now target payload.length) (idle : e.searching now target = false)
    (large : Wire.maxBody < e.queryLength now) :
    (e.send S now target payload).1 = .error (.wire (.tooLarge (e.queryLength now))) ∧
      e.Stranded now target payload (e.send S now target payload).2 := by
  obtain ⟨result, pending, awaits, answer, searches, outgoing, _, calm, parked⟩ := send_awaits sized reachable untagged shut
  cases awaits with
  | joined searching => cases idle.symm.trans searching
  | alone _ fits | asked _ _ fits => exact absurd fits (Nat.not_le.mpr large)
  | refused =>
      refine ⟨answer, parked, searches, calm.keyring, fun d => ?_, fun d => ?_, ?_, calm.incoming⟩
      · exact calm.settles.table.book.quiet d (UInt64.le_refl now)
      · exact calm.settles.cache.quiet d (UInt64.le_refl now)
      · exact outgoing.trans (List.append_nil _)

theorem send_error (sized : S.Sized) (reachable : e.Reachable S) (untagged : Kind.ofBytes? payload = none) {fault : Fault}
    (failed : (e.send S now target payload).1 = .error fault) :
    ¬ e.Open S now target payload.length ∧ e.searching now target = false ∧ Wire.maxBody < e.queryLength now := by
  have shut : ¬ e.Open S now target payload.length := by
    intro way
    obtain ⟨outcome, sent, _⟩ := (send_goes_iff now target payload sized (reachable_orderly reachable)).mpr ⟨untagged, way⟩
    cases failed.symm.trans sent
  obtain ⟨result, pending, awaits, answer, _⟩ := send_awaits sized reachable untagged shut
  rw [answer] at failed
  cases awaits with
  | joined | alone | asked => cases failed
  | refused idle large => exact ⟨shut, idle, large⟩

-- The payload is parked before the search begins, and is not taken back if the query cannot be written.
theorem send_fails_iff (sized : S.Sized) (reachable : e.Reachable S) (now : UInt64) (target : Identifier) (payload : Bytes) :
    ((∃ fault, (e.send S now target payload).1 = .error fault) ↔
      (∃ kind, Kind.ofBytes? payload = some kind) ∨
        Kind.ofBytes? payload = none ∧ ¬ e.Open S now target payload.length ∧ e.searching now target = false ∧
          Wire.maxBody < e.queryLength now) ∧
    (∀ kind, Kind.ofBytes? payload = some kind → e.send S now target payload = (.error (.reservedTag kind), e)) ∧
    ∀ fault, Kind.ofBytes? payload = none → (e.send S now target payload).1 = .error fault →
      fault = .wire (.tooLarge (e.queryLength now)) ∧ e.Stranded now target payload (e.send S now target payload).2 := by
  refine ⟨⟨?_, ?_⟩, fun kind => send_tagged S now target e, fun fault untagged failed => ?_⟩
  · rintro ⟨fault, failed⟩
    cases tagged : Kind.ofBytes? payload with
    | some kind => exact Or.inl ⟨kind, rfl⟩
    | none => exact Or.inr ⟨rfl, send_error sized reachable tagged failed⟩
  · rintro (⟨kind, tagged⟩ | ⟨untagged, shut, idle, large⟩)
    · exact ⟨_, congrArg Prod.fst (send_tagged S now target e tagged)⟩
    · exact ⟨_, (send_refuses sized reachable untagged shut idle large).1⟩
  · obtain ⟨shut, idle, large⟩ := send_error sized reachable untagged failed
    obtain ⟨refused, stranded⟩ := send_refuses sized reachable untagged shut idle large
    cases failed.symm.trans refused
    exact ⟨rfl, stranded⟩

theorem send_fails_iff_crowded :
    (∃ fault, ((crowded 2725).send Suite.plain 0 far [1, 2, 3]).1 = .error fault) ∧
    (crowded 2725).send Suite.plain 0 far [0x5a, 0x41, 0x44, 0x56] = (.error (.reservedTag .advertisement), crowded 2725) := by
  have few : 2725 ≤ many := by decide
  have crowd := crowded_crowd few
  have fails := send_fails_iff plain_lawful.sized (crowded_reachable 2725) 0 far
  refine ⟨(fails [1, 2, 3]).1.mpr (Or.inr ⟨rfl, crowd.shut few 3, crowd.idle 0 far, crowd.large few (Nat.le_refl _)⟩), ?_⟩
  exact (fails _).2.1 .advertisement rfl

-- A call to send that fails and leaves its payload on the shelf.
theorem refused_payload_parked :
    (crowded 2725).Reachable Suite.plain ∧ Kind.ofBytes? [1, 2, 3] = none ∧
    ((crowded 2725).send Suite.plain 0 far [1, 2, 3]).1 = .error (.wire (.tooLarge 65560)) ∧
    (crowded 2725).parkedFor far = [] ∧ ((crowded 2725).send Suite.plain 0 far [1, 2, 3]).2.parkedFor far = [[1, 2, 3]] := by
  have few : 2725 ≤ many := by decide
  have crowd := crowded_crowd few
  have reachable := crowded_reachable 2725
  have length : (crowded 2725).queryLength 0 = 65560 := by rw [queryLength, crowd.border_nodes few]
  have empty : (crowded 2725).parkedFor far = [] := by
    rw [parkedFor, crowd.parked]
    rfl
  obtain ⟨refused, stranded⟩ := send_refuses plain_lawful.sized reachable (rfl : Kind.ofBytes? [1, 2, 3] = none)
    (crowd.shut few 3) (crowd.idle 0 far) (crowd.large few (Nat.le_refl _))
  rw [length] at refused
  exact ⟨reachable, rfl, refused, empty, (stranded.parked far).trans (by rw [if_pos rfl, empty]; rfl)⟩

end ZoneRouting.Engine

import ZoneRouting.Proofs.Engine.Conservation

set_option autoImplicit false

namespace ZoneRouting.Engine

variable {S : Suite} {now : UInt64} {e : Engine} {target : Identifier} {bytes : Bytes}

theorem innermost_datagram {layers : Nat} {d : Datagram} (found : e.innermost? S layers bytes = some (.datagram d)) :
    ∃ octets, Wire.decode octets = .ok d := by
  induction layers generalizing bytes with
  | zero => cases found
  | succ layers ih =>
      rw [innermost?] at found
      cases tagged : Kind.ofBytes? bytes with
      | none =>
          rw [tagged] at found
          cases found
      | some kind =>
          rw [tagged] at found
          dsimp only at found
          cases read : Wire.decode bytes with
          | error fault =>
              rw [read] at found
              cases found
          | ok d' =>
              rw [read] at found
              dsimp only at found
              cases opened : e.unwrap? S d' with
              | none =>
                  rw [opened] at found
                  cases found
                  exact ⟨bytes, read⟩
              | some content =>
                  rw [opened] at found
                  exact ih found

theorem acknowledgement_long {a : Acknowledgement} (content : e.content? S bytes = some (.datagram (.acknowledgement a))) :
    2 ≤ a.route.length := by
  obtain ⟨octets, read⟩ := innermost_datagram content
  obtain ⟨checked, _⟩ := Wire.encode_of_decode read
  by_contra short
  rw [Wire.check, if_pos (Nat.lt_of_not_le short)] at checked
  cases checked

theorem answer_ledger (now : UInt64) (orderly : e.Orderly) {a : Acknowledgement} {ring : Keyring}
    (content : e.content? S bytes = some (.datagram (.acknowledgement a))) (accepts : e.Accepts S a target ring) :
    ∃ labels sent kept, Ledger S [bytes] now (e.accepted now a target ring) target (e.parkedFor target) labels sent kept
      (e.receive S now bytes) := by
  have handled : e.receive S now bytes = (e.accepted now a target ring).routeAll S now target (e.parkedFor target) := by
    rw [receive_content, content]
    exact accepts_handled accepts
  rw [handled]
  exact route_all_ledger now target [bytes] (e.parkedFor target) (orderly_accepted orderly now accepts)
    (orderly.untagged target)

theorem learned_route (cache : RouteCache) (now : UInt64) (d : Identifier) {route : Route} (long : 2 ≤ route.length)
    (loopFree : Route.LoopFree route) :
    ∃ best, ((cache.learn d route now).2.lookup d now).1 = some best ∧ best.length ≤ route.length := by
  have taken : cache.learn d route now =
      (true, { cache with book := cache.book.store d route (deadline now cache.lifetime) }) := if_pos ⟨long, loopFree⟩
  obtain ⟨r, member, same, valid⟩ := TimedRoute.entered route (deadline now cache.lifetime) (cache.book.bucket d)
  have stored : r ∈ (cache.book.store d route (deadline now cache.lifetime)).bucket d := by
    rw [RouteBook.bucket_store, if_pos rfl]
    exact member
  have live : TimedRoute.Live now r := UInt64.le_trans (le_deadline now cache.lifetime) valid
  rw [taken]
  cases found : ((cache.book.store d route (deadline now cache.lifetime)).lookup d now).1 with
  | none => exact absurd live (RouteBook.lookup_none found r stored)
  | some best => exact ⟨best, found, same ▸ (RouteBook.lookup_some found).2 r stored live⟩

-- The route that is used is the shortest that is known then, which need not be the one of the answer.
theorem acknowledgement_flushes (sized : S.Sized) (reachable : e.Reachable S) (now : UInt64) {a : Acknowledgement}
    {ring : Keyring} (content : e.content? S bytes = some (.datagram (.acknowledgement a)))
    (accepts : e.Accepts S a target ring) :
    ∃ route, ((e.cache.learn target a.route now).2.lookup target now).1 = some route ∧ route.length ≤ a.route.length ∧
      ∃ labels, List.Forall₂ ((e.receive S now bytes).2.Tells S [bytes]) (e.receive S now bytes).1 labels ∧
        ∀ border way, route[1]? = some border → (e.table.lookup border now).1 = some way →
          (∀ id key, id = target ∨ id = border → ring.find? id = some key →
            S.agree e.identity.keys.exchange key.exchange ≠ Octets.zero) →
          ∀ payload ∈ e.parkedFor target,
            Message.sealedLength payload.length route.length ≤ Wire.maxBody →
            Message.sealedLength (Message.sealedLength payload.length route.length + 8) way.length ≤ Wire.maxBody →
            (payloadsFor target labels.reduceOption).count payload = (e.parkedFor target).count payload ∧
              payload ∉ (e.receive S now bytes).2.parkedFor target := by
  have orderly := reachable_orderly reachable
  have ready := orderly_accepted orderly now accepts
  obtain ⟨route, found, short⟩ := learned_route e.cache now target (acknowledgement_long content) accepts.loopFree
  obtain ⟨labels, sent, kept, ledger⟩ := answer_ledger now orderly content accepts
  obtain ⟨_, undecided⟩ := ledger.decided sized
  refine ⟨route, found, short, labels, ledger.tells.imp fun _ _ tells => tells.keeps ledger.calm.keeps, ?_⟩
  intro border way second zone shared payload member fits fits'
  have sendable : (e.accepted now a target ring).Open S now target payload.length := by
    obtain ⟨proper, key, known⟩ := discovered_route_known ready found
    obtain ⟨_, key', known'⟩ := zone_route_known ready zone
    obtain ⟨_, rest, rfl⟩ := proper.hops
    cases second
    exact Or.inr ⟨_, _, _, found, ⟨⟨key, known, shared _ key (Or.inl rfl) known⟩, fits⟩,
      way, zone, ⟨key', known', shared _ key' (Or.inr rfl) known'⟩, fits'⟩
  have absent : payload ∉ kept := fun left => undecided payload left sendable
  refine ⟨?_, ledger.left ▸ absent⟩
  have merged := ledger.merged.perm.count_eq payload
  rw [List.count_append, List.count_eq_zero_of_not_mem absent, Nat.add_zero] at merged
  rw [ledger.cargo, payloads_for_own, merged]

def waiting : Engine := (lone.takeAll Suite.plain [announced 0 2, posting 0 [1, 2, 3]]).2

theorem acknowledgement_flushes_waiting :
    ∃ labels, List.Forall₂ ((waiting.receive Suite.plain 0 (octetsOf (.acknowledgement (answerBy 2)))).2.Tells Suite.plain
        [octetsOf (.acknowledgement (answerBy 2))])
        (waiting.receive Suite.plain 0 (octetsOf (.acknowledgement (answerBy 2)))).1 labels ∧
      (payloadsFor far labels.reduceOption).count [1, 2, 3] = 1 ∧
      [1, 2, 3] ∉ (waiting.receive Suite.plain 0 (octetsOf (.acknowledgement (answerBy 2)))).2.parkedFor
        far := by
  have runs : waiting.content? Suite.plain (octetsOf (.acknowledgement (answerBy 2))) =
        some (.datagram (.acknowledgement (answerBy 2))) ∧
      waiting.id = (numbered (0 : Fin 4)).id ∧
      (waiting.keyring.record far (answerBy 2).targetKey).isOk = true ∧
      ((waiting.cache.learn far (answerBy 2).route 0).2.lookup far 0).1 =
        some (answerBy 2).route ∧
      (waiting.table.lookup (numbered (2 : Fin 4)).id 0).1 = some [(numbered (0 : Fin 4)).id, (numbered (2 : Fin 4)).id] ∧
      waiting.parkedFor far = [[1, 2, 3]] := by decide +kernel
  obtain ⟨content, id, recorded, found, zone, parked⟩ := runs
  cases ring : waiting.keyring.record far (answerBy 2).targetKey with
  | error fault => rw [ring] at recorded; cases recorded
  | ok ring' =>
      have accepts : waiting.Accepts Suite.plain (answerBy 2) far ring' :=
        ⟨by decide, id ▸ rfl, rfl, rfl, ring⟩
      have reachable : waiting.Reachable Suite.plain := take_all_reachable (.start _ _ _) _
      obtain ⟨route, found', _, labels, tells, flushes⟩ :=
        acknowledgement_flushes plain_lawful.sized reachable 0 content accepts
      obtain rfl : (answerBy 2).route = route := Option.some.inj (found.symm.trans found')
      have member : [1, 2, 3] ∈ waiting.parkedFor far := parked ▸ List.mem_singleton_self _
      obtain ⟨once, gone⟩ := flushes (numbered (2 : Fin 4)).id _ rfl zone
        (fun _ key _ _ => plain_usable.contributory _ key.exchange) _ member (by decide) (by decide)
      exact ⟨labels, tells, once.trans (by rw [parked]; rfl), gone⟩

-- A device that has heard of one neighbour and accepted an answer that came by another one.
def stalled : Engine := (lone.takeAll Suite.plain [announced 0 2, posting 0 [1, 2, 3], answered 0 1]).2

-- An answer along a route whose border node can be reached does not help if the device prefers another
-- route, which is as short and was learned before, but whose border node cannot be reached.
theorem answer_not_flushed :
    stalled.Reachable Suite.plain ∧
    stalled.content? Suite.plain (octetsOf (.acknowledgement (answerBy 2))) =
      some (.datagram (.acknowledgement (answerBy 2))) ∧
    stalled.Accepts Suite.plain (answerBy 2) far stalled.keyring ∧
    (answerBy 2).route[1]? = some (numbered (2 : Fin 4)).id ∧
    (stalled.table.lookup (numbered (2 : Fin 4)).id 0).1 = some [(numbered (0 : Fin 4)).id, (numbered (2 : Fin 4)).id] ∧
    (∀ key, stalled.keyring.find? far = some key ∨ stalled.keyring.find? (numbered (2 : Fin 4)).id = some key →
      Suite.plain.agree stalled.identity.keys.exchange key.exchange ≠ Octets.zero) ∧
    Message.sealedLength (Message.sealedLength 3 3 + 8) 2 ≤ Wire.maxBody ∧
    stalled.parkedFor far = [[1, 2, 3]] ∧
    (stalled.receive Suite.plain 0 (octetsOf (.acknowledgement (answerBy 2)))).1 = [] ∧
    (stalled.receive Suite.plain 0 (octetsOf (.acknowledgement (answerBy 2)))).2.parkedFor far =
      [[1, 2, 3]] := by
  have runs : stalled.content? Suite.plain (octetsOf (.acknowledgement (answerBy 2))) =
        some (.datagram (.acknowledgement (answerBy 2))) ∧
      stalled.id = (numbered (0 : Fin 4)).id ∧
      stalled.keyring.record far (answerBy 2).targetKey = .ok stalled.keyring ∧
      (stalled.table.lookup (numbered (2 : Fin 4)).id 0).1 = some [(numbered (0 : Fin 4)).id, (numbered (2 : Fin 4)).id] ∧
      stalled.parkedFor far = [[1, 2, 3]] ∧
      (stalled.receive Suite.plain 0 (octetsOf (.acknowledgement (answerBy 2)))).1 = [] ∧
      (stalled.receive Suite.plain 0 (octetsOf (.acknowledgement (answerBy 2)))).2.parkedFor far =
        [[1, 2, 3]] := by decide +kernel
  obtain ⟨content, id, recorded, zone, parked, silent, left⟩ := runs
  refine ⟨take_all_reachable (.start _ _ _) _, content, ⟨by decide, ?_, rfl, rfl, recorded⟩, rfl, zone, ?_, by decide,
    parked, silent, left⟩
  · rw [id]
    rfl
  · exact fun key _ => plain_usable.contributory _ key.exchange

end ZoneRouting.Engine

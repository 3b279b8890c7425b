import ZoneRouting.Proofs.Engine.Emission

set_option autoImplicit false

namespace ZoneRouting.Engine

-- The routes that a device keeps have a property, those inside its zone one and the discovered ones another.
structure Knows (zone discovered : Identifier → Route → Prop) (e : Engine) : Prop where
  zone : e.table.book.All zone
  discovered : e.cache.book.All discovered

inductive Announces (e : Engine) : Datagram → Identifier → Route → Prop
  | announcement (a : Advertisement)
      (fresh : ¬ (a.origin = e.id ∨ e.id ∈ a.route ∨ a.origin ∈ a.route ∨ ¬ Route.LoopFree a.route)) :
      Announces e (.advertisement a) a.origin (ZoneTable.routeTo { a with route := a.route ++ [e.id] })

inductive Finds (S : Suite) (e : Engine) : Datagram → Identifier → Route → Prop
  | asked (d : Discovery) (requester : Identifier) (own : d.destination = e.id) (first : d.requester? = some requester)
      (loopFree : Route.LoopFree (d.route ++ [e.id])) : Finds S e (.discovery d) requester (d.route ++ [e.id]).reverse
  | answered (a : Acknowledgement) (target : Identifier) (ring : Keyring) (accepts : e.Accepts S a target ring) :
      Finds S e (.acknowledgement a) target a.route

variable {S : Suite} {now : UInt64} {e e' : Engine} {target : Identifier} {payload bytes : Bytes}
  {zone discovered : Identifier → Route → Prop}

theorem start_knows (S : Suite) (settings : Settings) (identity : Identity) (random : Random) :
    (Engine.start S settings identity random).Knows zone discovered :=
  ⟨RouteBook.all_empty zone, RouteBook.all_empty discovered⟩

theorem Knows.settles (knows : e.Knows zone discovered) (settles : e.Settles now e') : e'.Knows zone discovered :=
  ⟨settles.table.book.all knows.zone, settles.cache.all knows.discovered⟩

theorem Knows.calm (knows : e.Knows zone discovered) (calm : e.Calm now e') : e'.Knows zone discovered :=
  ⟨calm.settles.table.book.all knows.zone, calm.settles.cache.all knows.discovered⟩

theorem Knows.table (knows : e.Knows zone discovered) {d : Identifier} {route : Route} (known : route ∈ e.table.book.hopsTo d) :
    zone d route := by
  obtain ⟨r, member, rfl⟩ := List.mem_map.mp known
  exact knows.zone d r member

theorem send_knows (now : UInt64) (target : Identifier) (payload : Bytes) (orderly : e.Orderly)
    (knows : e.Knows zone discovered) : (e.send S now target payload).2.Knows zone discovered := by
  cases tagged : Kind.ofBytes? payload with
  | some kind =>
      rw [send, tagged]
      exact knows
  | none =>
      obtain ⟨_, _, _, ledger⟩ := route_ledger (S := S) now target [] orderly tagged
      have routed := knows.calm ledger.calm
      rw [send_route S now target tagged e]
      exact ⟨routed.zone, routed.discovered⟩

theorem learn_all {book : ZoneTable} {a : Advertisement} (all : book.book.All zone) (now : UInt64)
    (holds : zone a.origin (ZoneTable.routeTo a)) : (book.learn a now).2.book.All zone := by
  rw [ZoneTable.learn]
  dsimp only
  split
  · exact RouteBook.all_store all _ _ _ holds
  · exact all

theorem remember_all {cache : RouteCache} {d : Identifier} {route : Route} (all : cache.book.All discovered) (now : UInt64)
    (holds : Route.LoopFree route → discovered d route) : (cache.learn d route now).2.book.All discovered := by
  rw [RouteCache.learn]
  split
  · rename_i taken
    exact RouteBook.all_store all _ _ _ (holds taken.2)
  · exact all

theorem handle_knows (now : UInt64) (d : Datagram) (orderly : e.Orderly) (knows : e.Knows zone discovered)
    (shown : ∀ id route, e.Announces d id route → zone id route)
    (found : ∀ id route, e.Finds S d id route → discovered id route) : (e.handle S now d).2.Knows zone discovered := by
  cases d with
  | advertisement a =>
      rw [handle]
      rcases advertisement_cases now a e with dropped | ⟨fresh, ring, _, learned⟩
      · rw [dropped]
        exact knows
      · rw [learned]
        exact ⟨learn_all knows.zone now (shown _ _ (.announcement a fresh)), knows.discovered⟩
  | discovery d =>
      rw [handle]
      rcases discovery_cases S now d e with settles | ⟨own, requester, ring, first, _, settles⟩
      · exact knows.settles settles
      · have remembered : (e.cache.learn requester (d.route ++ [e.id]).reverse now).2.book.All discovered :=
          remember_all knows.discovered now fun loopFree =>
            found _ _ (.asked d requester own first (List.nodup_reverse.mp loopFree))
        exact ⟨settles.table.book.all knows.zone, settles.cache.all remembered⟩
  | acknowledgement a =>
      rw [handle]
      rcases acknowledgement_cases S now a e with ⟨target, ring, accepts, taken⟩ | ⟨previous, _, passed⟩ | dropped
      · obtain ⟨_, _, _, ledger⟩ := route_all_ledger (S := S) now target [] (e.parkedFor target)
          (orderly_accepted orderly now accepts) (orderly.untagged target)
        have remembered := remember_all knows.discovered now fun _ => found _ _ (.answered a target ring accepts)
        have accepted : (e.accepted now a target ring).Knows zone discovered := ⟨knows.zone, remembered⟩
        rw [taken]
        exact accepted.calm ledger.calm
      · rw [passed]
        exact knows.settles (sent_settles (forward_settles S now previous _ e))
      · rw [dropped]
        exact knows
  | failure f => exact knows
  | message m => exact knows.settles (handle_message_settles S now m e)

theorem receive_knows (now : UInt64) (bytes : Bytes) (orderly : e.Orderly) (knows : e.Knows zone discovered)
    (taught : ∀ d, e.content? S bytes = some (.datagram d) →
      (∀ id route, e.Announces d id route → zone id route) ∧ ∀ id route, e.Finds S d id route → discovered id route) :
    (e.receive S now bytes).2.Knows zone discovered := by
  rw [receive_content]
  rcases content : e.content? S bytes with _ | payload | d
  · exact knows
  · exact ⟨knows.zone, knows.discovered⟩
  · exact handle_knows now d orderly knows (taught d content).1 (taught d content).2

theorem call_knows (orderly : e.Orderly) (c : Call) (knows : e.Knows zone discovered)
    (taught : ∀ now bytes d, c = .receive now bytes → e.content? S bytes = some (.datagram d) →
      (∀ id route, e.Announces d id route → zone id route) ∧ ∀ id route, e.Finds S d id route → discovered id route) :
    (e.call S c).Knows zone discovered := by
  cases c with
  | send now target payload => exact send_knows now target payload orderly knows
  | receive now bytes => exact receive_knows now bytes orderly knows fun d => taught now bytes d rfl
  | discover now target => exact knows.calm (discover_calm now target e).1
  | sendDirect now target payload => exact knows.settles (send_direct_settles S now target payload e)
  | routeTo now target => exact knows.settles (route_to_settles now target e)
  | cachedRouteTo now target => exact knows.settles (cached_route_to_settles now target e)
  | borderNodes now excluded => exact knows.settles (settles_border_nodes now e excluded)
  | takeOutgoing | takeIncoming => exact ⟨knows.zone, knows.discovered⟩

theorem content_checked {d : Datagram} (content : e.content? S bytes = some (.datagram d)) : Wire.check d = .ok () := by
  obtain ⟨octets, read⟩ := innermost_datagram content
  exact (Wire.encode_of_decode read).1

end ZoneRouting.Engine

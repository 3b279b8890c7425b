import ZoneRouting.Engine.Receive
import ZoneRouting.Proofs.Routes

set_option autoImplicit false

namespace ZoneRouting

def posted : Except Fault (List Packet) → List Packet
  | .ok packets => packets
  | .error _ => []

namespace RouteBook

def pruned (now : UInt64) (routes : Option (List TimedRoute)) : Option (List TimedRoute) :=
  (routes.map (List.filter (TimedRoute.Live now ·))).filter (· ≠ [])

-- Some destinations have lost their routes past their deadline, and nothing else has changed.
def Prunes (now : UInt64) (book book' : RouteBook) : Prop :=
  ∀ d, book'.buckets.find? d = book.buckets.find? d ∨ book'.buckets.find? d = pruned now (book.buckets.find? d)

variable {now : UInt64} {book book' book'' : RouteBook}

theorem pruned_pruned (now : UInt64) (routes : Option (List TimedRoute)) :
    pruned now (pruned now routes) = pruned now routes := by
  cases routes with
  | none => rfl
  | some routes =>
      unfold pruned
      rw [Option.map_some]
      by_cases empty : routes.filter (TimedRoute.Live now ·) = []
      · rw [empty]
        rfl
      · rw [Option.filter_some, if_pos (decide_eq_true empty), Option.map_some, List.filter_filter]
        simp only [Bool.and_self]
        rw [Option.filter_some, if_pos (decide_eq_true empty)]

theorem find_lookup (book : RouteBook) (d k : Identifier) (now : UInt64) :
    (book.lookup d now).2.buckets.find? k =
      if k = d then pruned now (book.buckets.find? d) else book.buckets.find? k := by
  unfold lookup
  cases found : book.buckets.find? d with
  | none =>
      by_cases same : k = d
      · rw [if_pos same, same]
        exact found
      · rw [if_neg same]
  | some routes =>
      dsimp only [pruned, Option.map_some]
      cases best : TimedRoute.shortest? (routes.filter (TimedRoute.Live now ·)) with
      | none =>
          rw [TimedRoute.shortest_none best]
          exact Directory.find?_erase ..
      | some r =>
          have some : routes.filter (TimedRoute.Live now ·) ≠ [] :=
            List.ne_nil_of_mem (TimedRoute.shortest_some best).1
          rw [Option.filter_some, if_pos (decide_eq_true some)]
          exact Directory.find?_insert ..

theorem prunes_refl (now : UInt64) (book : RouteBook) : book.Prunes now book := fun _ => Or.inl rfl

theorem prunes_lookup (now : UInt64) (book : RouteBook) (d : Identifier) : book.Prunes now (book.lookup d now).2 := by
  intro k
  rw [find_lookup]
  by_cases same : k = d
  · rw [if_pos same, same]
    exact Or.inr rfl
  · rw [if_neg same]
    exact Or.inl rfl

theorem Prunes.trans (first : book.Prunes now book') (second : book'.Prunes now book'') : book.Prunes now book'' := by
  intro d
  rcases second d with kept | gone
  · rw [kept]
    exact first d
  · right
    rw [gone]
    rcases first d with kept | gone
    · rw [kept]
    · rw [gone, pruned_pruned]

theorem Prunes.none (prunes : book.Prunes now book') {d : Identifier} (none : book.buckets.find? d = none) :
    book'.buckets.find? d = Option.none := by
  rcases prunes d with kept | gone
  · rw [kept, none]
  · rw [gone, none]
    rfl

theorem pruned_bucket (now : UInt64) (routes : Option (List TimedRoute)) :
    (pruned now routes).getD [] = (routes.getD []).filter (TimedRoute.Live now ·) := by
  cases routes with
  | none => rfl
  | some routes =>
      unfold pruned
      rw [Option.map_some, Option.getD_some]
      by_cases empty : routes.filter (TimedRoute.Live now ·) = []
      · rw [empty]
        rfl
      · rw [Option.filter_some, if_pos (decide_eq_true empty), Option.getD_some]

theorem Prunes.bucket (prunes : book.Prunes now book') (d : Identifier) :
    book'.bucket d = book.bucket d ∨ book'.bucket d = (book.bucket d).filter (TimedRoute.Live now ·) := by
  unfold RouteBook.bucket
  rcases prunes d with kept | gone
  · rw [kept]
    exact Or.inl rfl
  · rw [gone, pruned_bucket]
    exact Or.inr rfl

theorem Prunes.subset (prunes : book.Prunes now book') {d : Identifier} {r : TimedRoute} (member : r ∈ book'.bucket d) :
    r ∈ book.bucket d := by
  rcases prunes.bucket d with kept | gone
  · exact kept ▸ member
  · rw [gone] at member
    exact (List.mem_filter.mp member).1

theorem Prunes.live (prunes : book.Prunes now book') {d : Identifier} {r : TimedRoute} (member : r ∈ book.bucket d)
    (live : TimedRoute.Live now r) : r ∈ book'.bucket d := by
  rcases prunes.bucket d with kept | gone
  · exact kept ▸ member
  · rw [gone]
    exact List.mem_filter.mpr ⟨member, decide_eq_true live⟩

theorem Prunes.all {property : Identifier → Route → Prop} (prunes : book.Prunes now book') (all : book.All property) :
    book'.All property := fun d r member => all d r (prunes.subset member)

theorem lookup_shortest (book : RouteBook) (d : Identifier) (now : UInt64) :
    (book.lookup d now).1 = (TimedRoute.shortest? ((book.bucket d).filter (TimedRoute.Live now ·))).map TimedRoute.hops := by
  unfold lookup bucket
  cases book.buckets.find? d with
  | none => rfl
  | some routes =>
      dsimp only [Option.getD_some]
      cases TimedRoute.shortest? (routes.filter (TimedRoute.Live now ·)) <;> rfl

theorem Prunes.lookup (prunes : book.Prunes now book') (d : Identifier) :
    (book'.lookup d now).1 = (book.lookup d now).1 := by
  rw [lookup_shortest, lookup_shortest]
  rcases prunes.bucket d with kept | gone
  · rw [kept]
  · rw [gone, List.filter_filter]
    simp only [Bool.and_self]

end RouteBook

namespace ZoneTable

structure Prunes (now : UInt64) (table table' : ZoneTable) : Prop where
  owner : table'.owner = table.owner
  borderHops : table'.borderHops = table.borderHops
  book : table.book.Prunes now table'.book
  candidates : table'.candidates.Sublist table.candidates
  -- Only devices without a route are forgotten.
  dropped : ∀ d ∈ table.candidates, d ∉ table'.candidates → table'.book.buckets.find? d = none

variable {now : UInt64} {table table' table'' : ZoneTable}

theorem prunes_refl (now : UInt64) (table : ZoneTable) : table.Prunes now table :=
  ⟨rfl, rfl, RouteBook.prunes_refl now _, .refl _, fun _ member gone => absurd member gone⟩

theorem Prunes.trans (first : table.Prunes now table') (second : table'.Prunes now table'') : table.Prunes now table'' where
  owner := second.owner.trans first.owner
  borderHops := second.borderHops.trans first.borderHops
  book := first.book.trans second.book
  candidates := second.candidates.trans first.candidates
  dropped d member gone := by
    by_cases kept : d ∈ table'.candidates
    · exact second.dropped d kept gone
    · exact second.book.none (first.dropped d member kept)

theorem prunes_lookup (now : UInt64) (table : ZoneTable) (d : Identifier) : table.Prunes now (table.lookup d now).2 :=
  ⟨rfl, rfl, RouteBook.prunes_lookup now _ d, .refl _, fun _ member gone => absurd member gone⟩

theorem sweep_prunes (borderHops : Nat) (excluded : List Identifier) (now : UInt64) (nodes : List Identifier)
    (book : RouteBook) :
    book.Prunes now (sweep borderHops excluded now nodes book).2.2 ∧
      (sweep borderHops excluded now nodes book).2.1.Sublist nodes ∧
      ∀ d ∈ nodes, d ∉ (sweep borderHops excluded now nodes book).2.1 →
        (sweep borderHops excluded now nodes book).2.2.buckets.find? d = none := by
  induction nodes generalizing book with
  | nil => exact ⟨RouteBook.prunes_refl now book, .refl _, nofun⟩
  | cons node nodes ih =>
      have looked := RouteBook.prunes_lookup now book node
      have entry := RouteBook.find_lookup book node node now
      have answer := RouteBook.lookup_shortest book node now
      rw [sweep]
      cases found : book.lookup node now with
      | mk route rest =>
          rw [found] at looked entry answer
          obtain ⟨prunes, inside, dropped⟩ := ih rest
          cases route with
          | none =>
              refine ⟨looked.trans prunes, inside.cons node, fun d member gone => ?_⟩
              rcases List.mem_cons.mp member with rfl | later
              · refine prunes.none ?_
                have none := TimedRoute.shortest_none (Option.map_eq_none_iff.mp answer.symm)
                rw [if_pos rfl] at entry
                unfold RouteBook.bucket at none
                rw [entry, RouteBook.pruned]
                cases stored : book.buckets.find? d with
                | none => rfl
                | some routes =>
                    rw [stored, Option.getD_some] at none
                    rw [Option.map_some, none]
                    rfl
              · exact dropped d later gone
          | some route =>
              dsimp only
              have kept : ∀ d ∈ node :: nodes, d ∉ node :: (sweep borderHops excluded now nodes rest).2.1 →
                  (sweep borderHops excluded now nodes rest).2.2.buckets.find? d = none := by
                intro d member gone
                rw [List.mem_cons, not_or] at gone
                exact dropped d ((List.mem_cons.mp member).resolve_left gone.1) gone.2
              split <;> exact ⟨looked.trans prunes, inside.cons_cons node, kept⟩

theorem prunes_border_nodes (now : UInt64) (table : ZoneTable) (excluded : List Identifier) :
    table.Prunes now (table.borderNodes excluded now).2 := by
  obtain ⟨prunes, inside, dropped⟩ := sweep_prunes table.borderHops excluded now table.candidates table.book
  exact ⟨rfl, rfl, prunes, inside, dropped⟩

end ZoneTable

namespace Engine

-- The device has used up random octets and dropped routes past their deadline, and nothing else has changed.
structure Settles (now : UInt64) (e e' : Engine) : Prop where
  rest : e' = { e with random := e'.random, table := e'.table, cache := e'.cache }
  table : e.table.Prunes now e'.table
  lifetime : e'.cache.lifetime = e.cache.lifetime
  cache : e.cache.book.Prunes now e'.cache.book

variable {now : UInt64} {e e' e'' : Engine}

theorem settles_refl (now : UInt64) (e : Engine) : e.Settles now e :=
  ⟨rfl, ZoneTable.prunes_refl now _, rfl, RouteBook.prunes_refl now _⟩

theorem Settles.trans (first : e.Settles now e') (second : e'.Settles now e'') : e.Settles now e'' where
  rest := by
    rw [second.rest, first.rest]
  table := first.table.trans second.table
  lifetime := second.lifetime.trans first.lifetime
  cache := first.cache.trans second.cache

theorem Settles.settings (settles : e.Settles now e') : e'.settings = e.settings := by rw [settles.rest]

theorem Settles.identity (settles : e.Settles now e') : e'.identity = e.identity := by rw [settles.rest]

theorem Settles.id (settles : e.Settles now e') : e'.id = e.id := congrArg Identity.id settles.identity

theorem Settles.keyring (settles : e.Settles now e') : e'.keyring = e.keyring := by rw [settles.rest]

theorem Settles.parked (settles : e.Settles now e') : e'.parked = e.parked := by rw [settles.rest]

theorem Settles.parked_for (settles : e.Settles now e') (target : Identifier) : e'.parkedFor target = e.parkedFor target := by
  rw [Engine.parkedFor, settles.parked, Engine.parkedFor]

theorem Settles.outgoing (settles : e.Settles now e') : e'.outgoing = e.outgoing := by rw [settles.rest]

theorem Settles.incoming (settles : e.Settles now e') : e'.incoming = e.incoming := by rw [settles.rest]

theorem Settles.pending (settles : e.Settles now e') : e'.pending = e.pending := by rw [settles.rest]

theorem settles_random (now : UInt64) (e : Engine) (random : Random) : e.Settles now { e with random } :=
  ⟨rfl, ZoneTable.prunes_refl now _, rfl, RouteBook.prunes_refl now _⟩

theorem settles_lookup (now : UInt64) (e : Engine) (d : Identifier) :
    e.Settles now { e with table := (e.table.lookup d now).2 } :=
  ⟨rfl, ZoneTable.prunes_lookup now _ d, rfl, RouteBook.prunes_refl now _⟩

theorem settles_cached (now : UInt64) (e : Engine) (d : Identifier) :
    e.Settles now { e with cache := (e.cache.lookup d now).2 } :=
  ⟨rfl, ZoneTable.prunes_refl now _, rfl, RouteBook.prunes_lookup now _ d⟩

theorem settles_border_nodes (now : UInt64) (e : Engine) (excluded : List Identifier) :
    e.Settles now (e.borderNodes now excluded).2 :=
  ⟨rfl, ZoneTable.prunes_border_nodes now _ excluded, rfl, RouteBook.prunes_refl now _⟩

variable (S : Suite)

theorem wrap_along_settles (now : UInt64) (payload : Bytes) (route : Route) (key : PublicKey) (e : Engine) :
    e.Settles now (e.wrapAlong S payload route key).2 := by
  unfold wrapAlong
  rcases Message.wrap S e.random payload route key e.identity.keys with ⟨fault | m, random⟩
  · exact settles_random now e random
  · dsimp only
    cases Wire.encode (.message m) <;> exact settles_random now e random

theorem send_direct_settles (now : UInt64) (target : Identifier) (payload : Bytes) (e : Engine) :
    e.Settles now (e.sendDirect S now target payload).2 := by
  have looked := settles_lookup now e target
  unfold sendDirect
  rcases found : e.table.lookup target now with ⟨answer, table⟩
  rw [found] at looked
  cases answer with
  | none => exact looked
  | some route =>
      dsimp only
      cases e.keyring.find? target with
      | none => exact looked
      | some key =>
          dsimp only
          split
          · rename_i own next rest
            have wrapped := wrap_along_settles S now payload (own :: next :: rest) key { e with table }
            split <;> (rename_i same; rw [same] at wrapped; exact looked.trans wrapped)
          · exact looked

theorem send_each_settles (now : UInt64) (payload : Bytes) (targets : List Identifier) (e : Engine) :
    e.Settles now (e.sendEach S now payload targets).2 := by
  induction targets generalizing e with
  | nil => exact settles_refl now e
  | cons target targets ih =>
      have first := send_direct_settles S now target payload e
      rw [sendEach]
      rcases tried : e.sendDirect S now target payload with ⟨fault | packet, e₁⟩ <;> rw [tried] at first
      · exact first.trans (ih e₁)
      · exact first.trans (ih e₁)

theorem send_inter_zone_settles (now : UInt64) (target : Identifier) (payload : Bytes) (e : Engine) :
    e.Settles now (e.sendInterZone S now target payload).2 := by
  have looked := settles_cached now e target
  unfold sendInterZone
  rcases found : e.cache.lookup target now with ⟨answer, cache⟩
  rw [found] at looked
  cases answer with
  | none => exact looked
  | some route =>
      dsimp only
      cases e.keyring.find? target with
      | none => exact looked
      | some key =>
          dsimp only
          split
          · rename_i own border rest
            have wrapped := wrap_along_settles S now payload (own :: border :: rest) key { e with cache }
            split
            · rename_i inner e₁ same
              rw [same] at wrapped
              exact (looked.trans wrapped).trans (send_direct_settles S now border inner e₁)
            · rename_i fault e₁ same
              rw [same] at wrapped
              exact looked.trans wrapped
          · exact looked

theorem forward_settles (now : UInt64) (target : Identifier) (d : Datagram) (e : Engine) :
    e.Settles now (e.forward S now target d).2 := by
  unfold forward
  cases Wire.encode d with
  | error fault => exact settles_refl now e
  | ok bytes => exact send_direct_settles S now target bytes e

theorem sent_settles {now : UInt64} {e : Engine} {result : Except Fault Packet × Engine} (settles : e.Settles now result.2) :
    e.Settles now (sent result).2 := by
  rcases result with ⟨fault | packet, e₁⟩ <;> exact settles

theorem spread_settles (now : UInt64) (d : Discovery) (e : Engine) : e.Settles now (e.spread S now d).2 := by
  have swept := settles_border_nodes now e (d.covered ++ d.route)
  unfold spread
  split
  · exact settles_refl now e
  · rcases found : e.borderNodes now (d.covered ++ d.route) with ⟨targets, e₁⟩
    rw [found] at swept
    cases targets with
    | nil => exact swept
    | cons target targets =>
        dsimp only
        split
        · exact swept
        · exact swept.trans (send_each_settles S now _ (target :: targets) e₁)

theorem relay_settles (now : UInt64) (m : Message) (next : Identifier) (e : Engine) :
    e.Settles now (e.relay S now m next).2 := by
  have looked := settles_lookup now e next
  unfold relay
  rcases found : e.table.lookup next now with ⟨answer, table⟩
  rw [found] at looked
  cases answer with
  | none => exact looked
  | some route =>
      dsimp only
      split
      · rename_i key bytes known written
        split
        · exact looked
        · rename_i own first rest _
          have wrapped := wrap_along_settles S now bytes (own :: first :: rest) key { e with table }
          split <;> (rename_i same; rw [same] at wrapped; exact looked.trans wrapped)
        · exact looked
      · exact looked

theorem discover_settles (now : UInt64) (target : Identifier) (e : Engine) :
    ∃ e₁, e.Settles now e₁ ∧
      ((e.discover S now target).2 = e₁ ∨
        (e.discover S now target).2 = { e₁ with pending := e₁.pending.insert target now }) := by
  have swept := settles_border_nodes now e [e.id]
  unfold discover
  rcases found : e.borderNodes now [e.id] with ⟨border, e₁⟩
  rw [found] at swept
  dsimp only
  split
  · exact ⟨e₁, swept, Or.inl rfl⟩
  · rename_i bytes written
    have whole := swept.trans (send_each_settles S now bytes border e₁)
    rcases queries : Engine.sendEach S now bytes border e₁ with ⟨packets, e₂⟩
    rw [queries] at whole
    dsimp only
    split
    · exact ⟨e₂, whole, Or.inl rfl⟩
    · exact ⟨e₂, whole, Or.inr rfl⟩

inductive Routed (now : UInt64) (target : Identifier) (payload : Bytes) (e : Engine) :
    Except Fault (SendOutcome × List Packet) × Engine → Prop
  | direct (packet : Packet) (e₁ : Engine) (direct : e.Settles now e₁)
      (first : e.sendDirect S now target payload = (.ok packet, e₁)) :
      Routed now target payload e (.ok (.direct, [packet]), e₁)
  | interZone {fault : Fault} (packet : Packet) (e₁ e₂ : Engine) (direct : e.Settles now e₁) (zone : e₁.Settles now e₂)
      (first : e.sendDirect S now target payload = (.error fault, e₁))
      (second : e₁.sendInterZone S now target payload = (.ok packet, e₂)) :
      Routed now target payload e (.ok (.interZone, [packet]), e₂)
  | joined {fault fault' : Fault} (e₁ e₂ : Engine) (direct : e.Settles now e₁) (zone : e₁.Settles now e₂)
      (first : e.sendDirect S now target payload = (.error fault, e₁))
      (second : e₁.sendInterZone S now target payload = (.error fault', e₂))
      (busy : (e₂.park target payload).searching now target = true) :
      Routed now target payload e (.ok (.queued, []), e₂.park target payload)
  | searched {fault fault' : Fault} (e₁ e₂ : Engine) (direct : e.Settles now e₁) (zone : e₁.Settles now e₂)
      (first : e.sendDirect S now target payload = (.error fault, e₁))
      (second : e₁.sendInterZone S now target payload = (.error fault', e₂))
      (idle : (e₂.park target payload).searching now target = false) (found : Except Fault (List Packet)) (e₃ : Engine)
      (third : (e₂.park target payload).discover S now target = (found, e₃)) :
      Routed now target payload e (found.map (Prod.mk .queued), e₃)

theorem route_routed (now : UInt64) (target : Identifier) (payload : Bytes) (e : Engine) :
    e.Routed S now target payload (e.route S now target payload) := by
  have direct := send_direct_settles S now target payload e
  unfold route
  rcases first : e.sendDirect S now target payload with ⟨fault | packet, e₁⟩ <;> rw [first] at direct
  · have zone := send_inter_zone_settles S now target payload e₁
    dsimp only
    rcases second : e₁.sendInterZone S now target payload with ⟨fault' | packet, e₂⟩ <;> rw [second] at zone
    · dsimp only
      by_cases busy : (e₂.park target payload).searching now target
      · rw [if_pos busy]
        exact .joined e₁ e₂ direct zone first second busy
      · rw [if_neg busy]
        have idle := Bool.eq_false_iff.mpr busy
        rcases third : (e₂.park target payload).discover S now target with ⟨fault | packets, e₃⟩
        · exact .searched e₁ e₂ direct zone first second idle (.error fault) e₃ third
        · exact .searched e₁ e₂ direct zone first second idle (.ok packets) e₃ third
    · exact .interZone packet e₁ e₂ direct zone first second
  · exact .direct packet e₁ direct first

end Engine

theorem parked_for_park (target k : Identifier) (payload : Bytes) (e : Engine) :
    (e.park target payload).parkedFor k = if k = target then e.parkedFor target ++ [payload] else e.parkedFor k := by
  unfold Engine.park Engine.parkedFor
  dsimp only
  rw [Directory.find?_insert]
  by_cases same : k = target
  · rw [if_pos same, if_pos same]
    rfl
  · rw [if_neg same, if_neg same]

theorem parked_for_erase (target k : Identifier) (e : Engine) :
    Engine.parkedFor k { e with parked := e.parked.erase target } = if k = target then [] else e.parkedFor k := by
  unfold Engine.parkedFor
  dsimp only
  rw [Directory.find?_erase]
  by_cases same : k = target
  · rw [if_pos same, if_pos same]
    rfl
  · rw [if_neg same, if_neg same]

end ZoneRouting

import ZoneRouting.Proofs.Honest.Runs
import ZoneRouting.Proofs.Lasting
import ZoneRouting.Proofs.StaticMesh.Zone

set_option autoImplicit false

namespace ZoneRouting.StaticMesh

variable {n : Nat} (M : StaticMesh n)

def announcement (o : Fin n) (q : List (Fin n)) : Advertisement where
  origin := M.name o
  key := M.key o
  route := M.names q
  interval := M.settings.advertisementInterval

-- An announcement in the air: it came along a trail, and the last device of it sent it to a neighbour.
structure Wave (o : Fin n) (q : List (Fin n)) (copy : Copy n) : Prop where
  written : Wire.encode (.advertisement (M.announcement o q)) = .ok copy.bytes
  trail : M.Trail o copy.sender (o :: q)
  short : q.length < M.reach
  linked : (copy.sender, copy.receiver) ∈ M.links

structure Listening (u : Fin n) (e : Engine) : Prop where
  plain : ∃ table keyring, e = { Engine.start M.suite M.settings (M.who u) (M.random u) with table, keyring }
  mapping : M.Mapping u e.table
  keys : ∀ v, e.table.book.hopsTo (M.name v) ≠ [] → e.keyring.find? (M.name v) = some (M.key v)

inductive Floods : Event n → Prop
  | advertise (u : Fin n) : Floods (.advertise M.links u)
  | hear (copy : Copy n) : Floods (.hear M.now M.links copy)

-- A device that knows its zone and the keys of all devices in it and on its border.
structure Ready (u : Fin n) (e : Engine) : Prop where
  identity : e.identity = M.who u
  publicKey : e.publicKey = M.key u
  authentic : ∀ id key, e.keyring.find? id = some key → Owns M.suite M.who id key
  settings : e.settings = M.settings
  charted : M.Charted u e.table
  keys : ∀ v, M.Near u v → e.keyring.find? (M.name v) = some (M.key v)

-- The last device of a trail has learned it, or the announcement is on its way along it.
def Spreads (o v : Fin n) (p : List (Fin n)) (f : Swarm n) : Prop :=
  M.names (o :: p).reverse ∈ (f.device v).table.book.hopsTo (M.name o) ∨
    ∃ q w r, p = q ++ w :: r ∧ ∃ copy ∈ f.air, copy.receiver = w ∧
      Wire.encode (.advertisement (M.announcement o q)) = .ok copy.bytes

structure Flooding (told : Fin n → Prop) (f : Swarm n) : Prop where
  trust : Swarm.Trustworthy M.suite M.who f
  listening : ∀ u, M.Listening u (f.device u)
  waves : ∀ copy ∈ f.air, ∃ o q, M.Wave o q copy
  spreads : ∀ o, told o → ∀ v p, M.Trail o v (o :: p) → p ≠ [] → p.length ≤ M.reach → M.Spreads o v p f

variable {M} {u v o : Fin n} {e : Engine} {q : List (Fin n)}

theorem Listening.id (listening : M.Listening u e) : e.id = M.name u := by
  obtain ⟨table, keyring, rfl⟩ := listening.plain
  rfl

theorem Listening.settings (listening : M.Listening u e) : e.settings = M.settings := by
  obtain ⟨table, keyring, rfl⟩ := listening.plain
  rfl

theorem record_authentic (authentic : ∀ id key, e.keyring.find? id = some key → Owns M.suite M.who id key) (v : Fin n) :
    ∃ ring, e.keyring.record (M.name v) (M.key v) = .ok ring ∧
      ∀ id, ring.find? id = if id = M.name v then some (M.key v) else e.keyring.find? id := by
  unfold Keyring.record
  cases known : e.keyring.find? (M.name v) with
  | none => exact ⟨_, rfl, fun id => Directory.find?_insert e.keyring (M.name v) id (M.key v)⟩
  | some key =>
      obtain ⟨w, named, own⟩ := authentic _ _ known
      cases name_injective named
      have same : key = M.key v := own
      subst same
      refine ⟨e.keyring, if_pos rfl, fun id => ?_⟩
      split
      · rename_i same
        rw [same, known]
      · rfl

theorem announcement_checked (o : Fin n) (q : List (Fin n)) :
    Wire.check (.advertisement (M.announcement o q)) = .ok () := names_valid (o :: q)

theorem receive_announcement {bytes : Bytes}
    (written : Wire.encode (.advertisement (M.announcement o q)) = .ok bytes) :
    e.receive M.suite M.now bytes = e.handleAdvertisement M.now (M.announcement o q) ∧
      e.receiveWrites M.suite M.now bytes = e.handleAdvertisementWrites (M.announcement o q) :=
  Engine.receive_handle M.suite M.now _ written (announcement_checked o q) rfl

theorem announcement_returns (own : e.id = M.name v) (passed : v ∈ o :: q) :
    e.handleAdvertisement M.now (M.announcement o q) = ([], e) := by
  refine if_pos ?_
  rcases List.mem_cons.mp passed with rfl | later
  · exact Or.inl own.symm
  · exact Or.inr (Or.inl (own ▸ mem_names.mpr later))

theorem advertisement_taken {a extended : Advertisement} {ring : Keyring}
    (fresh : ¬ (a.origin = e.id ∨ e.id ∈ a.route ∨ a.origin ∈ a.route ∨ ¬ Route.LoopFree a.route))
    (longer : { a with route := a.route ++ [e.id] } = extended) (recorded : e.keyring.record a.origin a.key = .ok ring) :
    e.handleAdvertisement M.now a =
        ((if extended.route.length > e.settings.zoneRadius then []
          else match Wire.encode (.advertisement extended) with
            | .ok bytes => [Packet.broadcast bytes]
            | .error _ => []), { e with table := (e.table.learn extended M.now).2, keyring := ring }) ∧
      e.handleAdvertisementWrites a =
        if extended.route.length > e.settings.zoneRadius then [] else [.advertisement extended] := by
  subst longer
  constructor
  · rw [Engine.handleAdvertisement, if_neg fresh]
    dsimp only
    rw [recorded]
    dsimp only
    split
    · rfl
    · cases Wire.encode (.advertisement { a with route := a.route ++ [e.id] }) <;> rfl
  · rw [Engine.handleAdvertisementWrites, if_neg fresh, recorded]

theorem announcement_new (own : e.id = M.name v) (trail : M.Trail o v (o :: (q ++ [v]))) :
    ¬ ((M.announcement o q).origin = e.id ∨ e.id ∈ (M.announcement o q).route ∨
      (M.announcement o q).origin ∈ (M.announcement o q).route ∨ ¬ Route.LoopFree (M.announcement o q).route) := by
  have nodup := trail.nodup
  rw [own]
  rw [List.nodup_cons, List.mem_append, List.mem_singleton, not_or, List.nodup_append] at nodup
  obtain ⟨⟨outside, other⟩, loopFree, _, apart⟩ := nodup
  rintro (same | again | again | loop)
  · exact other (name_injective same)
  · exact apart v (mem_names.mp again) v List.mem_cons_self rfl
  · exact outside (mem_names.mp again)
  · exact loop (names_nodup.mpr loopFree)

theorem announcement_learned (listening : M.Listening v e) (trail : M.Trail o v (o :: (q ++ [v]))) (short : q.length < M.reach)
    {ring : Keyring} (found : ∀ id, ring.find? id = if id = M.name o then some (M.key o) else e.keyring.find? id)
    {e' : Engine} (moved : e' = { e with
      table := (e.table.learn (M.announcement o (q ++ [v])) M.now).2
      keyring := ring }) :
    M.Listening v e' ∧ ∀ d route, route ∈ e'.table.book.hopsTo d ↔
      (d = M.name o ∧ route = M.names (o :: (q ++ [v])).reverse) ∨ route ∈ e.table.book.hopsTo d := by
  obtain ⟨learned, known⟩ := learn_trail listening.mapping trail
    (by rw [List.length_append]; exact short) (by simp) (M.key o) M.settings.advertisementInterval
  subst moved
  refine ⟨⟨?_, learned, fun w stored => ?_⟩, known⟩
  · obtain ⟨table, keyring, rfl⟩ := listening.plain
    exact ⟨_, _, rfl⟩
  · have lookup := found (M.name w)
    by_cases same : w = o
    · rw [if_pos (congrArg M.name same)] at lookup
      exact same ▸ lookup
    · have different : M.name w ≠ M.name o := fun equal => same (name_injective equal)
      rw [if_neg different] at lookup
      refine lookup.trans (listening.keys w ?_)
      obtain ⟨route, member⟩ := List.exists_mem_of_ne_nil _ stored
      rcases (known _ _).mp member with ⟨here, _⟩ | old
      · exact absurd here different
      · exact List.ne_nil_of_mem old

theorem announcement_arrives (honest : Honest M.suite M.who v e) (listening : M.Listening v e)
    (trail : M.Trail o v (o :: (q ++ [v]))) (short : q.length < M.reach)
    (fits : ∀ d ∈ e.handleAdvertisementWrites (M.announcement o q), Wire.Fits d) :
    ∃ packets e', e.handleAdvertisement M.now (M.announcement o q) = (packets, e') ∧ M.Listening v e' ∧
      (∀ d route, route ∈ e'.table.book.hopsTo d ↔
        (d = M.name o ∧ route = M.names (o :: (q ++ [v])).reverse) ∨ route ∈ e.table.book.hopsTo d) ∧
      (q.length + 1 = M.reach ∧ packets = [] ∨
        q.length + 1 < M.reach ∧ ∃ bytes, packets = [Packet.broadcast bytes] ∧
          Wire.encode (.advertisement (M.announcement o (q ++ [v]))) = .ok bytes) := by
  have extended : { M.announcement o q with route := (M.announcement o q).route ++ [e.id] } =
      M.announcement o (q ++ [v]) := by
    rw [listening.id, announcement, announcement, names_append]
    rfl
  have length : (M.announcement o (q ++ [v])).route.length = q.length + 1 := by
    rw [announcement, length_names, List.length_append, List.length_singleton]
  have radius : e.settings.zoneRadius + 1 = M.reach := by rw [listening.settings]; rfl
  obtain ⟨ring, recorded, found⟩ := record_authentic honest.keys o
  obtain ⟨e', moved⟩ : ∃ e' : Engine, e' = { e with
      table := (e.table.learn (M.announcement o (q ++ [v])) M.now).2, keyring := ring } := ⟨_, rfl⟩
  obtain ⟨listening', stored⟩ := announcement_learned listening trail short found moved
  obtain ⟨handled, writes⟩ := advertisement_taken (announcement_new listening.id trail) extended recorded
  rw [writes, length] at fits
  rw [handled, length, ← moved]
  by_cases outside : q.length + 1 > e.settings.zoneRadius
  · rw [if_pos outside]
    exact ⟨[], e', rfl, listening', stored, Or.inl ⟨by omega, rfl⟩⟩
  · rw [if_neg outside] at fits
    obtain ⟨bytes, written⟩ := Wire.encode_fits (fits _ List.mem_cons_self)
    rw [if_neg outside, written]
    exact ⟨[Packet.broadcast bytes], e', rfl, listening', stored, Or.inr ⟨by omega, bytes, rfl, rfl⟩⟩

variable {f : Swarm n} {told : Fin n → Prop}

theorem flooding_start : M.Flooding (fun _ => False) M.start where
  trust := Swarm.start_trustworthy _ _
  listening u := by
    refine ⟨⟨_, _, rfl⟩, mapping_empty u, fun v stored => absurd ?_ stored⟩
    exact rfl
  waves := nofun
  spreads _ none := none.elim

theorem announcement_self (honest : Honest M.suite M.who u e) (listening : M.Listening u e) {packet : Packet}
    (made : e.advertise = .ok packet) :
    ∃ bytes, packet = Packet.broadcast bytes ∧ Wire.encode (.advertisement (M.announcement u [])) = .ok bytes := by
  have own : { origin := e.id, key := e.publicKey, route := [], interval := e.settings.advertisementInterval } =
      M.announcement u [] := by
    rw [listening.id, listening.settings, honest.publicKey]
    rfl
  unfold Engine.advertise at made
  rw [own] at made
  split at made
  · rename_i bytes written
    cases made
    exact ⟨bytes, rfl, written⟩
  · cases made

theorem trail_single (u : Fin n) : M.Trail u u [u] := ⟨List.nodup_singleton u, List.isChain_singleton u, rfl, rfl⟩

theorem Trail.snoc {a b c : Fin n} {p : List (Fin n)} (trail : M.Trail a b p) (linked : (b, c) ∈ M.links)
    (fresh : c ∉ p) : M.Trail a c (p ++ [c]) := by
  have nonempty : p ≠ [] := fun empty => by simpa [empty] using trail.first
  have other : b ≠ c := fun same => fresh (same ▸ List.mem_of_getLast? trail.last)
  refine ⟨?_, ?_, ?_, List.getLast?_concat⟩
  · exact List.nodup_append.mpr ⟨trail.nodup, List.nodup_singleton c,
      fun x member y here same => fresh (List.mem_singleton.mp here ▸ same ▸ member)⟩
  · refine trail.chain.append (List.isChain_singleton c) fun x last y first => ?_
    rw [trail.last] at last
    cases last
    cases first
    exact adj_iff.mpr ⟨other, linked⟩
  · rw [List.head?_append_of_ne_nil _ nonempty, trail.first]

theorem flooding_advertise (flooding : M.Flooding told f) (u : Fin n)
    (fits : ∀ d ∈ f.writes M.suite (.advertise M.links u), Wire.Fits d) :
    M.Flooding (fun o => told o ∨ o = u) (f.advertise M.links u) := by
  have honest := flooding.trust.honest u
  have listening := flooding.listening u
  have trust := Swarm.advertise_trustworthy flooding.trust M.links u
  unfold Swarm.advertise at trust ⊢
  cases made : (f.device u).advertise with
  | error fault =>
      exfalso
      obtain ⟨bytes, written⟩ := Wire.encode_fits (fits _ List.mem_cons_self)
      unfold Engine.advertise at made
      rw [written] at made
      cases made
  | ok packet =>
      rw [made] at trust
      obtain ⟨bytes, rfl, written⟩ := announcement_self honest listening made
      have sent : ∀ copy, copy ∈ (f.transmit M.links u [Packet.broadcast bytes]).air ↔
          copy ∈ f.air ∨ (copy.sender = u ∧ (u, copy.receiver) ∈ M.links ∧ copy.bytes = bytes) := by
        intro copy
        rw [Swarm.transmit, List.mem_append, List.flatMap_singleton, Swarm.mem_copies_broadcast]
      refine ⟨trust, flooding.listening, fun copy member => ?_, fun o known v p trail passed short => ?_⟩
      · rcases (sent copy).mp member with old | ⟨sender, linked, same⟩
        · exact flooding.waves copy old
        · refine ⟨u, [], same ▸ written, ?_, Nat.succ_pos _, sender ▸ linked⟩
          rw [sender]
          exact trail_single u
      · rcases known with before | rfl
        · rcases flooding.spreads o before v p trail passed short with stored | ⟨q, w, r, split, copy, old, rest⟩
          · exact Or.inl stored
          · exact Or.inr ⟨q, w, r, split, copy, (sent copy).mpr (Or.inl old), rest⟩
        · cases p with
          | nil => exact absurd rfl passed
          | cons w r =>
              have linked := (adj_iff.mp trail.chain.rel).2
              refine Or.inr ⟨[], w, r, rfl, ⟨o, w, bytes⟩, ?_, rfl, written⟩
              exact (sent _).mpr (Or.inr ⟨rfl, linked, rfl⟩)

theorem announcement_unique {o o' : Fin n} {q q' : List (Fin n)} {bytes : Bytes}
    (written : Wire.encode (.advertisement (M.announcement o q)) = .ok bytes)
    (written' : Wire.encode (.advertisement (M.announcement o' q')) = .ok bytes) : o = o' ∧ q = q' := by
  have same := Datagram.advertisement.inj (Wire.encode_injective written written')
  exact ⟨name_injective (congrArg Advertisement.origin same),
    List.map_injective_iff.mpr name_injective (congrArg Advertisement.route same)⟩

-- What hearing an announcement does: the device keeps what it knows, is told of the trail along which the
-- announcement came, and passes it on if the trail may get longer.
structure Heard (o : Fin n) (q : List (Fin n)) (v : Fin n) (e : Engine) (packets : List Packet) (e' : Engine) : Prop where
  listening : M.Listening v e'
  keeps : ∀ d, ∀ route ∈ e.table.book.hopsTo d, route ∈ e'.table.book.hopsTo d
  few : packets.length ≤ 1
  waves : ∀ packet ∈ packets, ∃ bytes, packet = Packet.broadcast bytes ∧
    ∀ w, (v, w) ∈ M.links → M.Wave o (q ++ [v]) ⟨v, w, bytes⟩
  told : M.Trail o v (o :: (q ++ [v])) → M.names (o :: (q ++ [v])).reverse ∈ e'.table.book.hopsTo (M.name o) ∧
    (q.length + 1 < M.reach → ∃ bytes, Packet.broadcast bytes ∈ packets ∧
      Wire.encode (.advertisement (M.announcement o (q ++ [v]))) = .ok bytes)

theorem wave_heard {copy : Copy n} (wave : M.Wave o q copy) (honest : Honest M.suite M.who copy.receiver e)
    (listening : M.Listening copy.receiver e) (fits : ∀ d ∈ e.receiveWrites M.suite M.now copy.bytes, Wire.Fits d) :
    M.Heard o q copy.receiver e (e.receive M.suite M.now copy.bytes).1 (e.receive M.suite M.now copy.bytes).2 := by
  obtain ⟨handled, writes⟩ := receive_announcement (e := e) wave.written
  rw [writes] at fits
  rw [handled]
  by_cases passed : copy.receiver ∈ o :: q
  · rw [announcement_returns listening.id passed]
    refine ⟨listening, fun d route known => known, Nat.zero_le 1, nofun, fun trail => ?_⟩
    have nodup := trail.nodup
    rw [← List.cons_append, List.nodup_append] at nodup
    exact absurd rfl (nodup.2.2 _ passed _ List.mem_cons_self)
  · have trail : M.Trail o copy.receiver (o :: (q ++ [copy.receiver])) := wave.trail.snoc wave.linked passed
    obtain ⟨packets, e', taken, listening', stored, sending⟩ :=
      announcement_arrives honest listening trail wave.short fits
    rw [taken]
    have known := fun d route old => (stored d route).mpr (Or.inr old)
    have here := (stored (M.name o) _).mpr (Or.inl ⟨rfl, rfl⟩)
    rcases sending with ⟨full, rfl⟩ | ⟨short, bytes, rfl, written⟩
    · exact ⟨listening', known, Nat.zero_le 1, nofun, fun _ => ⟨here, fun further => absurd full further.ne⟩⟩
    · refine ⟨listening', known, Nat.le_refl 1, fun packet sent => ⟨bytes, List.mem_singleton.mp sent, fun v linked => ?_⟩,
        fun _ => ⟨here, fun _ => ⟨bytes, List.mem_cons_self, written⟩⟩⟩
      refine ⟨written, trail, ?_, linked⟩
      rw [List.length_append]
      exact short

theorem wave_copies {links : Links (Fin n)} {bytes : Bytes} {copy : Copy n} (waves : ∀ w, (v, w) ∈ links → M.Wave o q ⟨v, w, bytes⟩)
    (member : copy ∈ f.copies links v (Packet.broadcast bytes)) : M.Wave o q copy := by
  obtain ⟨sender, linked, same⟩ := Swarm.mem_copies_broadcast.mp member
  have wave := waves copy.receiver linked
  rw [← sender, ← same] at wave
  exact wave

theorem flooding_hear (flooding : M.Flooding told f) {copy : Copy n} (member : copy ∈ f.air)
    (fits : ∀ d ∈ f.writes M.suite (.hear M.now M.links copy), Wire.Fits d) :
    M.Flooding told (f.hear M.suite M.now M.links copy) := by
  have trust := Swarm.hear_trustworthy M.usable.opens M.distinct flooding.trust M.now M.links member
  obtain ⟨o, q, wave⟩ := flooding.waves copy member
  have heard := wave_heard wave (flooding.trust.honest copy.receiver) (flooding.listening copy.receiver) fits
  have hearing := Swarm.hear_hearing M.suite M.now M.links copy f
  generalize (f.device copy.receiver).receive M.suite M.now copy.bytes = reply at heard hearing
  generalize f.hear M.suite M.now M.links copy = f' at trust hearing ⊢
  obtain ⟨packets, e'⟩ := reply
  have keeps : ∀ v d, ∀ route ∈ (f.device v).table.book.hopsTo d, route ∈ (f'.device v).table.book.hopsTo d :=
    fun v d route known => hearing.at (fun e => route ∈ e.table.book.hopsTo d)
      (fun same => heard.keeps d route (same ▸ known)) fun _ => known
  have air : ∀ c, c ∈ f'.air ↔ c ∈ f.air.erase copy ∨ ∃ packet ∈ packets, c ∈ f'.copies M.links copy.receiver packet := by
    intro c
    rw [hearing.air, List.mem_append, List.mem_flatMap]
  refine ⟨trust, fun v => ?_, fun c inside => ?_, fun o known v p trail passed short => ?_⟩
  · exact hearing.at (M.Listening v) (fun same => same ▸ heard.listening) fun _ => flooding.listening v
  · rcases (air c).mp inside with old | ⟨packet, sent, fresh⟩
    · exact flooding.waves c (List.mem_of_mem_erase old)
    · obtain ⟨bytes, rfl, waves⟩ := heard.waves packet sent
      exact ⟨o, _, wave_copies waves fresh⟩
  · rcases flooding.spreads o known v p trail passed short with stored | ⟨q, w, r, split, c, inside, receiver, written⟩
    · exact Or.inl (keeps v _ _ stored)
    · by_cases same : c = copy
      · subst same split receiver
        have whole : o :: (q ++ c.receiver :: r) = (o :: q) ++ c.receiver :: r := rfl
        rw [whole] at trail
        obtain ⟨rfl, rfl⟩ := announcement_unique written wave.written
        obtain ⟨stored, further⟩ := heard.told trail.cut.1
        rw [List.length_append, List.length_cons] at short
        cases r with
        | nil =>
            have last := trail.last
            rw [List.getLast?_append_of_ne_nil _ (by simp)] at last
            cases last
            exact Or.inl (hearing.at (fun e => M.names _ ∈ e.table.book.hopsTo _) (fun _ => stored) fun other => absurd rfl other)
        | cons x r =>
            obtain ⟨bytes, sent, written'⟩ := further (by rw [List.length_cons] at short; omega)
            have linked : (c.receiver, x) ∈ M.links := (adj_iff.mp (trail.cut.2.chain).rel).2
            refine Or.inr ⟨q ++ [c.receiver], x, r, by simp, ⟨c.receiver, x, bytes⟩, ?_, rfl, written'⟩
            exact (air _).mpr (Or.inr ⟨_, sent, Swarm.mem_copies_broadcast.mpr ⟨rfl, linked, rfl⟩⟩)
      · exact Or.inr ⟨q, w, r, split, c, (air c).mpr (Or.inl ((List.mem_erase_of_ne same).mpr inside)), receiver, written⟩

theorem flooding_apply (flooding : M.Flooding told f) {event : Event n} (floods : M.Floods event)
    (possible : f.Possible event) (fits : ∀ d ∈ f.writes M.suite event, Wire.Fits d) :
    M.Flooding (fun o => told o ∨ event = .advertise M.links o) (f.apply M.suite event) := by
  cases floods with
  | advertise u =>
      have next := flooding_advertise flooding u fits
      refine { next with spreads := fun o known => next.spreads o (known.imp id fun same => ?_) }
      cases same
      rfl
  | hear copy =>
      rw [Swarm.apply_hear possible]
      have next := flooding_hear flooding possible fits
      exact { next with spreads := fun o known => next.spreads o (known.resolve_right nofun) }

theorem flooding_run (events : List (Event n)) (floods : ∀ event ∈ events, M.Floods event)
    (flooding : M.Flooding told f) (smooth : Swarm.Smooth M.suite events f) :
    M.Flooding (fun o => told o ∨ .advertise M.links o ∈ events) (f.run M.suite events) := by
  induction events generalizing f told with
  | nil => exact { flooding with spreads := fun o known => flooding.spreads o (known.resolve_right List.not_mem_nil) }
  | cons event events ih =>
      obtain ⟨possible, fits, rest⟩ := smooth
      have step := flooding_apply flooding (floods event List.mem_cons_self) possible fits
      have next := ih (fun e member => floods e (List.mem_cons_of_mem _ member)) step rest
      refine { next with spreads := fun o known => next.spreads o ?_ }
      rcases known with before | member
      · exact Or.inl (Or.inl before)
      · exact (List.mem_cons.mp member).imp (fun here => Or.inr here.symm) id

theorem flooded_told (flooding : M.Flooding told f) (known : told o) (quiet : f.air = []) {p : List (Fin n)}
    (trail : M.Trail u o p) (long : 2 ≤ p.length) (short : p.length ≤ M.reach + 1) :
    M.names p ∈ (f.device u).table.book.hopsTo (M.name o) := by
  have back := trail.reverse
  have length : p.reverse.length = p.length := List.length_reverse
  cases turned : p.reverse with
  | nil =>
      rw [turned] at length
      rw [← length] at long
      cases long
  | cons x r =>
      rw [turned] at back length
      have first : x = o := Option.some.inj back.first
      subst first
      rw [List.length_cons] at length
      have passed : r ≠ [] := fun empty => by rw [empty, List.length_nil] at length; omega
      rcases flooding.spreads x known u r back passed (by omega) with stored | ⟨_, _, _, _, copy, inside, _⟩
      · rw [← turned, List.reverse_reverse] at stored
        exact stored
      · rw [quiet] at inside
        cases inside

theorem flooded_ready (flooding : M.Flooding told f) (all : ∀ u, told u) (quiet : f.air = []) (u : Fin n) :
    M.Ready u (f.device u) := by
  have listening := flooding.listening u
  have complete : ∀ v p, M.Trail u v p → 2 ≤ p.length → p.length ≤ M.reach + 1 →
      M.names p ∈ (f.device u).table.book.hopsTo (M.name v) :=
    fun v _ trail long short => flooded_told flooding (all v) quiet trail long short
  have charted := charted_of_mapping listening.mapping complete
  have honest := flooding.trust.honest u
  refine ⟨honest.identity, honest.publicKey, honest.keys, listening.settings, charted, fun v near => ?_⟩
  obtain ⟨p, shortest⟩ := exists_shortest near.reachable
  have long := shortest.long near
  exact listening.keys v (List.ne_nil_of_mem (complete v p shortest.toTrail long.1 long.2))

-- An announcement in the air, and how many more trails it may be told along.
def Spreading (copy : Copy n) (left : Nat) : Prop := ∃ o q, M.Wave o q copy ∧ q.length + left = M.reach

theorem advertise_fresh (flooding : M.Flooding told f) (u : Fin n) :
    ∃ fresh, (f.advertise M.links u).air = f.air ++ fresh ∧ fresh.length ≤ n ∧
      ∀ copy ∈ fresh, M.Spreading copy M.reach := by
  unfold Swarm.advertise
  cases made : (f.device u).advertise with
  | error fault => exact ⟨[], (List.append_nil _).symm, Nat.zero_le n, nofun⟩
  | ok packet =>
      obtain ⟨bytes, rfl, written⟩ := announcement_self (flooding.trust.honest u) (flooding.listening u) made
      refine ⟨f.copies M.links u (Packet.broadcast bytes), ?_, Swarm.length_copies_le .., fun copy member => ?_⟩
      · dsimp only
        rw [Swarm.transmit, List.flatMap_singleton]
      · exact ⟨u, [], wave_copies (fun w linked => ⟨written, trail_single u, Nat.succ_pos _, linked⟩) member, Nat.zero_add _⟩

theorem hear_fresh (flooding : M.Flooding told f) {copy : Copy n}
    (fits : ∀ d ∈ f.writes M.suite (.hear M.now M.links copy), Wire.Fits d) (left : Nat) (spreading : M.Spreading copy left) :
    ∃ fresh, (f.hear M.suite M.now M.links copy).air = f.air.erase copy ++ fresh ∧ fresh.length ≤ n ∧
      ∀ c ∈ fresh, ∃ less < left, M.Spreading c less := by
  obtain ⟨o, q, wave, whole⟩ := spreading
  have heard := wave_heard wave (flooding.trust.honest copy.receiver) (flooding.listening copy.receiver) fits
  have hearing := Swarm.hear_hearing M.suite M.now M.links copy f
  generalize (f.device copy.receiver).receive M.suite M.now copy.bytes = reply at heard hearing
  obtain ⟨packets, e'⟩ := reply
  refine ⟨_, hearing.air, ?_, fun c member => ?_⟩
  · match packets, heard.few with
    | [], _ => exact Nat.zero_le n
    | [packet], _ =>
        rw [List.flatMap_singleton]
        exact Swarm.length_copies_le ..
  · obtain ⟨packet, sent, fresh⟩ := List.mem_flatMap.mp member
    obtain ⟨bytes, rfl, waves⟩ := heard.waves packet sent
    have further := wave_copies waves fresh
    have short := further.short
    rw [List.length_append, List.length_singleton] at short
    refine ⟨left - 1, by omega, o, _, further, ?_⟩
    rw [List.length_append, List.length_singleton]
    omega

theorem spreading_apply (flooding : M.Flooding told f) {event : Event n} (floods : M.Floods event)
    (possible : f.Possible event) (fits : ∀ d ∈ f.writes M.suite event, Wire.Fits d) {total : Nat}
    (lasting : Swarm.Lasting M.Spreading f.air total) :
    ∃ rest, Swarm.Lasting M.Spreading (f.apply M.suite event).air rest ∧
      rest + 1 ≤ total + [event].countP Event.advertises * (n + 1) ^ (M.reach + 1) := by
  cases floods with
  | advertise u =>
      obtain ⟨fresh, air, few, spreading⟩ := advertise_fresh flooding u
      have lower : ∀ copy ∈ fresh, ∃ less < M.reach + 1, M.Spreading copy less :=
        fun copy member => ⟨M.reach, Nat.lt_succ_self _, spreading copy member⟩
      obtain ⟨extra, short, lasting'⟩ := Swarm.lasting_fresh few lower
      refine ⟨total + extra, ?_, ?_⟩
      · rw [Swarm.apply, air]
        exact Swarm.lasting_append lasting lasting'
      · rw [List.countP_cons_of_pos rfl, List.countP_nil, Nat.zero_add, Nat.one_mul]
        omega
  | hear copy =>
      rw [Swarm.apply_hear possible]
      obtain ⟨rest, less, lasting'⟩ := Swarm.lasting_hear lasting possible (fun _ _ => id) (hear_fresh flooding fits)
      exact ⟨rest, lasting', Nat.le_add_right_of_le less⟩

theorem flood_limit (events : List (Event n)) (floods : ∀ event ∈ events, M.Floods event) (flooding : M.Flooding told f)
    (smooth : Swarm.Smooth M.suite events f) {total : Nat} (lasting : Swarm.Lasting M.Spreading f.air total) :
    events.length ≤ total + events.countP Event.advertises * (n + 1) ^ (M.reach + 1) := by
  induction events generalizing f told total with
  | nil => exact Nat.zero_le _
  | cons event events ih =>
      obtain ⟨possible, fits, rest⟩ := smooth
      have first := floods event List.mem_cons_self
      obtain ⟨left, lasting', spent⟩ := spreading_apply flooding first possible fits lasting
      have bound := ih (fun e member => floods e (List.mem_cons_of_mem _ member))
        (flooding_apply flooding first possible fits) rest lasting'
      rw [← List.singleton_append, List.countP_append, Nat.add_mul, List.length_append, List.length_singleton]
      omega

end ZoneRouting.StaticMesh

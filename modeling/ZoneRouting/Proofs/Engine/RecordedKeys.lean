import ZoneRouting.Proofs.Engine.FirstKeys

set_option autoImplicit false

namespace ZoneRouting

def Keyring.offered (ring : Keyring) (id : Identifier) (key : PublicKey) : Keyring := (ring.record id key).toOption.getD ring

theorem Keyring.find_offered {ring : Keyring} {id k : Identifier} {key known : PublicKey} : (ring.offered id key).find? k = some known ↔
    ring.find? k = some known ∨ ring.find? k = none ∧ id = k ∧ key = known := by
  rw [offered, record]
  cases found : ring.find? id with
  | none =>
      change (ring.insert id key).find? k = some known ↔ _
      rw [Directory.find?_insert]
      by_cases same : k = id
      · simp [same, found]
      · simp [same, Ne.symm same]
  | some old =>
      have taken : ¬ (ring.find? k = none ∧ id = k ∧ key = known) := by
        rintro ⟨missing, rfl, _⟩
        cases found.symm.trans missing
      rw [or_iff_left taken]
      dsimp only
      split <;> rfl

theorem Suite.standard_verify {key : Octets 32} (point : standard.isPoint key = false) (message signature : Bytes) :
    standard.verify key message signature = .error .key := by
  dsimp only [standard] at point ⊢
  rw [Curve.isPoint, Option.isSome_eq_false_iff, Option.isNone_iff_eq_none] at point
  unfold Curve.verify
  rw [point]

namespace PublicKey

variable {S : Suite} {key : PublicKey}

theorem read_to_bytes (S : Suite) (key : PublicKey) : read S key.toBytes = key.validate S := by
  rw [read, of_bytes?_to_bytes]

theorem validate_error (point : S.isPoint key.signing = false) : key.validate S = .error (.crypto .invalidKey) :=
  if_neg (Bool.not_eq_true _ ▸ point)

theorem not_verify {data signature : Bytes} (refused : S.verify key.signing data signature = .error .key) :
    key.verify S data signature ≠ .ok () := by
  by_cases long : signature.length = 64 <;> simp [verify, long, refused]

end PublicKey

namespace Engine

-- The datagram is not dropped for its route, or, as an answer, for a key that is no point.
def Heeds (S : Suite) (e : Engine) : Datagram → Prop
  | .advertisement a => ¬ (a.origin = e.id ∨ e.id ∈ a.route ∨ a.origin ∈ a.route ∨ ¬ Route.LoopFree a.route)
  | .discovery d => ¬ (¬ Route.LoopFree d.route ∨ e.id ∈ d.route)
  | .acknowledgement a => Route.LoopFree a.route ∧ S.isPoint a.targetKey.signing = true
  | _ => False

structure Teaches (S : Suite) (bytes : Bytes) (d : Datagram) (id : Identifier) (key : PublicKey) (e : Engine) : Prop where
  content : e.content? S bytes = some (.datagram d)
  unknown : e.keyring.find? id = none
  claims : e.Claims d id key
  heeds : e.Heeds S d

variable {S : Suite} {now : UInt64} {e : Engine} {id : Identifier} {key known : PublicKey} {bytes : Bytes} {d : Datagram}

theorem Claims.iff {k : Identifier} (claims : e.Claims d k known) : e.Claims d id key ↔ k = id ∧ known = key := by
  cases d with
  | advertisement a =>
      obtain ⟨rfl, rfl⟩ := claims
      exact Iff.rfl
  | discovery d =>
      obtain ⟨own, first, rfl⟩ := claims
      simp [Claims, own, first]
  | acknowledgement a =>
      obtain ⟨first, last, rfl⟩ := claims
      simp [Claims, first, last]
  | failure f => exact claims.elim
  | message m => exact claims.elim

theorem handle_offered (orderly : e.Orderly) (now : UInt64) (claims : e.Claims d id key) (heeds : e.Heeds S d) :
    (e.handle S now d).2.keyring = e.keyring.offered id key := by
  cases d with
  | advertisement a =>
      obtain ⟨rfl, rfl⟩ := claims
      rw [handle, handleAdvertisement, if_neg heeds, Keyring.offered]
      dsimp only
      cases e.keyring.record a.origin a.key with
      | error fault => rfl
      | ok ring =>
          dsimp only
          split
          · rfl
          · split <;> rfl
  | discovery d =>
      obtain ⟨own, first, rfl⟩ := claims
      rw [handle, handleDiscovery, if_neg heeds, if_pos own, answer, first, Keyring.offered]
      cases last : d.route.getLast? with
      | none =>
          rw [Discovery.requester?, List.getLast?_eq_none_iff.mp last] at first
          cases first
      | some previous =>
          dsimp only
          cases e.keyring.record id d.origin with
          | error fault => rfl
          | ok ring => exact (sent_settles (forward_settles S now previous _ _)).keyring
  | acknowledgement a =>
      obtain ⟨first, last, rfl⟩ := claims
      obtain ⟨loopFree, point⟩ := heeds
      have valid : a.targetKey.validate S = .ok a.targetKey := PublicKey.validate_ok_iff.mpr ⟨point, rfl⟩
      rw [handle, Keyring.offered]
      cases recorded : e.keyring.record id a.targetKey with
      | error fault =>
          rw [handleAcknowledgement, if_neg (not_not_intro loopFree), if_pos first, last]
          dsimp only
          rw [accept, valid]
          dsimp only
          rw [recorded]
          rfl
      | ok ring =>
          have accepts : e.Accepts S a id ring := ⟨loopFree, first, last, valid, recorded⟩
          obtain ⟨_, _, _, ledger⟩ := route_all_ledger (S := S) now id [] (e.parkedFor id)
            (orderly_accepted orderly now accepts) (orderly.untagged id)
          rw [accepts_handled accepts]
          exact ledger.calm.keyring
  | failure f => exact claims.elim
  | message m => exact claims.elim

theorem handle_kept (now : UInt64) (dropped : ∀ id key, e.Claims d id key → ¬ e.Heeds S d) :
    (e.handle S now d).2.keyring = e.keyring := by
  cases d with
  | advertisement a => rw [handle, handleAdvertisement, if_pos (not_not.mp (dropped a.origin a.key ⟨rfl, rfl⟩))]
  | discovery d =>
      by_cases old : ¬ Route.LoopFree d.route ∨ e.id ∈ d.route
      · rw [handle, handleDiscovery, if_pos old]
      · rcases discovery_cases S now d e with settles | ⟨own, requester, _, first, _⟩
        · exact settles.keyring
        · exact absurd old (dropped requester d.origin ⟨own, first, rfl⟩)
  | acknowledgement a =>
      rcases acknowledgement_cases S now a e with ⟨target, _, accepts, _⟩ | ⟨previous, _, passed⟩ | ignored
      · exact absurd ⟨accepts.loopFree, (PublicKey.validate_ok_iff.mp accepts.valid).1⟩
          (dropped target a.targetKey ⟨accepts.first, accepts.last, rfl⟩)
      · rw [handle, passed]
        exact (sent_settles (forward_settles S now previous _ e)).keyring
      · rw [handle, ignored]
  | failure f => rfl
  | message m => exact (handle_message_settles S now m e).keyring

theorem handle_keys (orderly : e.Orderly) (now : UInt64) (d : Datagram) :
    (e.handle S now d).2.keyring.find? id = some key ↔
      e.keyring.find? id = some key ∨ e.keyring.find? id = none ∧ e.Claims d id key ∧ e.Heeds S d := by
  by_cases offers : ∃ k known, e.Claims d k known ∧ e.Heeds S d
  · obtain ⟨k, known, claims, heeds⟩ := offers
    rw [handle_offered orderly now claims heeds, Keyring.find_offered, and_iff_left heeds, claims.iff]
  · have dropped : ∀ k known, e.Claims d k known → ¬ e.Heeds S d := fun k known claims heeds => offers ⟨k, known, claims, heeds⟩
    rw [handle_kept now dropped]
    exact (or_iff_left fun taught => dropped id key taught.2.1 taught.2.2).symm

theorem receive_keys (orderly : e.Orderly) (now : UInt64) (bytes : Bytes) :
    (e.receive S now bytes).2.keyring.find? id = some key ↔
      e.keyring.find? id = some key ∨ ∃ d, e.Teaches S bytes d id key := by
  rw [receive_content]
  rcases content : e.content? S bytes with _ | payload | d
  · refine (or_iff_left ?_).symm
    rintro ⟨d, teaches⟩
    cases content.symm.trans teaches.content
  · refine (or_iff_left ?_).symm
    rintro ⟨d, teaches⟩
    cases content.symm.trans teaches.content
  · dsimp only
    rw [handle_keys orderly now d]
    refine or_congr_right ⟨fun taught => ⟨d, content, taught.1, taught.2.1, taught.2.2⟩, ?_⟩
    rintro ⟨d', teaches⟩
    cases content.symm.trans teaches.content
    exact ⟨teaches.unknown, teaches.claims, teaches.heeds⟩

theorem send_keyring (orderly : e.Orderly) (now : UInt64) (target : Identifier) (payload : Bytes) :
    (e.send S now target payload).2.keyring = e.keyring := by
  cases tagged : Kind.ofBytes? payload with
  | some kind => rw [send, tagged]
  | none =>
      obtain ⟨_, _, _, ledger⟩ := route_ledger (S := S) now target [] orderly tagged
      rw [send_route S now target tagged e]
      exact ledger.calm.keyring

theorem call_keyring (orderly : e.Orderly) (c : Call) (deaf : ∀ now bytes, c ≠ .receive now bytes) :
    (e.call S c).keyring = e.keyring := by
  cases c with
  | receive now bytes => exact absurd rfl (deaf now bytes)
  | send now target payload => exact send_keyring orderly now target payload
  | discover now target => exact (discover_calm now target e).1.keyring
  | sendDirect now target payload => exact (send_direct_settles S now target payload e).keyring
  | routeTo now target => exact (route_to_settles now target e).keyring
  | cachedRouteTo now target => exact (cached_route_to_settles now target e).keyring
  | borderNodes now excluded => exact (settles_border_nodes now e excluded).keyring
  | takeOutgoing | takeIncoming => rfl

theorem call_keys (orderly : e.Orderly) (c : Call) :
    (e.call S c).keyring.find? id = some key ↔ e.keyring.find? id = some key ∨
      ∃ now bytes d, c = .receive now bytes ∧ e.Teaches S bytes d id key := by
  by_cases hears : ∃ now bytes, c = .receive now bytes
  · obtain ⟨now, bytes, rfl⟩ := hears
    refine (receive_keys orderly now bytes).trans (or_congr_right ⟨fun ⟨d, teaches⟩ => ⟨now, bytes, d, rfl, teaches⟩, ?_⟩)
    rintro ⟨_, _, d, same, teaches⟩
    cases same
    exact ⟨d, teaches⟩
  · rw [call_keyring orderly c fun now bytes same => hears ⟨now, bytes, same⟩]
    refine (or_iff_left ?_).symm
    rintro ⟨now, bytes, _, same, _⟩
    exact hears ⟨now, bytes, same⟩

theorem call_all_keys (orderly : e.Orderly) (calls : List Call) :
    (e.callAll S calls).keyring.find? id = some key ↔ e.keyring.find? id = some key ∨
      ∃ before now bytes after d, calls = before ++ .receive now bytes :: after ∧
        (e.callAll S before).Teaches S bytes d id key := by
  induction calls generalizing e with
  | nil =>
      refine (or_iff_left ?_).symm
      rintro ⟨before, now, bytes, after, d, split, _⟩
      exact absurd split.symm (List.append_ne_nil_of_right_ne_nil before (List.cons_ne_nil _ after))
  | cons c calls ih =>
      have next := orderly_changes (call_changes (S := S) orderly c) orderly
      change ((e.call S c).callAll S calls).keyring.find? id = some key ↔ _
      rw [ih next, call_keys orderly c, or_assoc]
      refine or_congr_right ⟨?_, ?_⟩
      · rintro (⟨now, bytes, d, rfl, teaches⟩ | ⟨before, now, bytes, after, d, rfl, teaches⟩)
        · exact ⟨[], now, bytes, calls, d, rfl, teaches⟩
        · exact ⟨c :: before, now, bytes, after, d, rfl, teaches⟩
      · rintro ⟨before, now, bytes, after, d, split, teaches⟩
        cases before with
        | nil =>
            cases split
            exact Or.inl ⟨now, bytes, d, rfl, teaches⟩
        | cons first before =>
            cases split
            exact Or.inr ⟨before, now, bytes, after, d, rfl, teaches⟩

theorem Teaches.answered (teaches : e.Teaches S bytes d id key) (answer : d.kind = .acknowledgement) :
    PublicKey.read S key.toBytes = .ok key := by
  cases d with
  | acknowledgement a =>
      obtain ⟨_, _, rfl⟩ := teaches.claims
      rw [PublicKey.read_to_bytes]
      exact PublicKey.validate_ok_iff.mpr ⟨teaches.heeds.2, rfl⟩
  | _ => cases answer

-- Answers are checked before they teach a key, announcements and searches are not.
theorem recorded_keys_usable_iff (S : Suite) (settings : Settings) (identity : Identity) (random : Random) (calls : List Call) :
    (∀ id key, ((Engine.start S settings identity random).callAll S calls).keyring.find? id = some key →
      PublicKey.read S key.toBytes = .ok key) ↔
    ∀ before now bytes after d id key, calls = before ++ .receive now bytes :: after →
      ((Engine.start S settings identity random).callAll S before).Teaches S bytes d id key →
        d.kind ≠ .acknowledgement → PublicKey.read S key.toBytes = .ok key := by
  have orderly := orderly_start S settings identity random
  constructor
  · intro usable before now bytes after d id key split teaches _
    exact usable id key ((call_all_keys orderly calls).mpr (Or.inr ⟨before, now, bytes, after, d, split, teaches⟩))
  · intro taught id key found
    rcases (call_all_keys orderly calls).mp found with already | ⟨before, now, bytes, after, d, split, teaches⟩
    · cases already
    · by_cases answer : d.kind = .acknowledgement
      · exact teaches.answered answer
      · exact taught before now bytes after d id key split teaches answer

-- A key that is no point, and so checks no signature.
def hollow : PublicKey := ⟨Octets.ofBytes (List.replicate 32 2), Octets.ofBytes (List.replicate 32 2)⟩

def hollowAnnouncement : Datagram :=
  .advertisement { origin := (numbered (2 : Fin 4)).id, key := hollow, route := [], interval := 100000 }

def hollowSearch : Datagram :=
  .discovery
    { origin := hollow, destination := (numbered (0 : Fin 4)).id, sent := 0, route := [(numbered (2 : Fin 4)).id],
      covered := [(numbered (2 : Fin 4)).id] }

def fielded : Engine := Engine.start Suite.standard {} (numbered (0 : Fin 4)) (Random.ofSeed 0)

-- A device records such a key for one that announces itself with it, and for one that searches for the device with it, and
-- keeps it for good.
theorem hollow_key_recorded :
    PublicKey.read Suite.standard hollow.toBytes = .error (.crypto .invalidKey) ∧
    (∀ data signature, hollow.verify Suite.standard data signature ≠ .ok ()) ∧
    ∀ d ∈ [hollowAnnouncement, hollowSearch], ∀ calls,
      ((fielded.receive Suite.standard 0 (octetsOf d)).2.callAll Suite.standard calls).keyring.find?
        (numbered (2 : Fin 4)).id = some hollow := by
  have point : Suite.standard.isPoint hollow.signing = false := by decide +kernel
  have heard : fielded.content? Suite.standard (octetsOf hollowAnnouncement) = some (.datagram hollowAnnouncement) ∧
      fielded.content? Suite.standard (octetsOf hollowSearch) = some (.datagram hollowSearch) := by decide +kernel
  have heeds : fielded.Heeds Suite.standard hollowAnnouncement ∧ fielded.Heeds Suite.standard hollowSearch := by
    rw [hollowAnnouncement, hollowSearch, Heeds, Heeds]
    decide
  have teaches : ∀ d ∈ [hollowAnnouncement, hollowSearch],
      fielded.Teaches Suite.standard (octetsOf d) d (numbered (2 : Fin 4)).id hollow := by
    rw [List.forall_mem_cons, List.forall_mem_singleton]
    exact ⟨⟨heard.1, rfl, ⟨rfl, rfl⟩, heeds.1⟩, heard.2, rfl, ⟨rfl, rfl, rfl⟩, heeds.2⟩
  refine ⟨?_, fun data signature => ?_, fun d member calls => ?_⟩
  · rw [PublicKey.read_to_bytes]
    exact PublicKey.validate_error point
  · exact PublicKey.not_verify (Suite.standard_verify point data signature)
  · exact (call_all_keys (orderly_start _ _ _ _) (.receive 0 (octetsOf d) :: calls)).mpr
      (Or.inr ⟨[], 0, octetsOf d, calls, d, rfl, teaches d member⟩)

end Engine
end ZoneRouting

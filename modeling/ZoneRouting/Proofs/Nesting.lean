import ZoneRouting.Proofs.Engine.Sending

set_option autoImplicit false

namespace ZoneRouting

variable {S : Suite} {outer inner core : Bytes} {depth : Nat}

-- The outer octets are a message that seals the inner ones, or that opens to them with some keys.
def Encloses (S : Suite) (outer inner : Bytes) : Prop :=
  ∃ m, Wire.encode (.message m) = .ok outer ∧
    ((∃ g g' route key sender, Message.wrap S g inner route key sender = (.ok m, g')) ∨
      ∃ recipient key, m.unwrap S recipient key = .ok inner)

-- So many messages, each around the next, and what the innermost one is around.
inductive Nested (S : Suite) : Nat → Bytes → Bytes → Prop
  | bare (core : Bytes) : Nested S 0 core core
  | within {depth : Nat} {outer inner core : Bytes} (encloses : Encloses S outer inner) (rest : Nested S depth inner core) :
      Nested S (depth + 1) outer core

theorem Encloses.length (sized : S.Sized) (encloses : Encloses S outer inner) :
    inner.length + 145 ≤ outer.length ∧ outer.length ≤ Wire.maxBody + 8 := by
  obtain ⟨m, written, made⟩ := encloses
  have length : (Wire.body (.message m)).length = Message.sealedLength inner.length m.route.length := by
    rcases made with ⟨_, _, route, _, _, sealed⟩ | ⟨_, _, opened⟩
    · obtain ⟨_, _, along, _⟩ := wrap_ok sealed
      rw [length_body_wrap sized sealed, along]
    · exact length_body_unwrap opened
  have small := (Wire.encode_ok written).1
  rw [Wire.encode_length written, length]
  rw [length] at small
  refine ⟨?_, Nat.add_le_add_right small 8⟩
  rw [Message.sealedLength]
  omega

theorem Nested.length (sized : S.Sized) (nested : Nested S depth outer core) : 145 * depth + core.length ≤ outer.length := by
  induction nested with
  | bare core => omega
  | within encloses _ ih =>
      have layer := (encloses.length sized).1
      omega

theorem Nested.depth_le (sized : S.Sized) (nested : Nested S depth outer core) : depth ≤ Wire.maxBody := by
  have room := nested.length sized
  cases nested with
  | bare _ => exact Nat.zero_le _
  | within encloses _ =>
      have limit := (encloses.length sized).2
      omega

namespace Engine

variable {now : UInt64} {e : Engine} {m : Message} {target next : Identifier} {packet : Packet} {route : Route}
  {key : PublicKey}

theorem wrap_along_longer (sized : S.Sized) (made : (e.wrapAlong S inner route key).1 = .ok outer) :
    inner.length < outer.length := by
  rw [wrap_along_length sized made, Message.sealedLength]
  omega

theorem send_direct_longer (sized : S.Sized) (sent : (e.sendDirect S now target inner).1 = .ok packet) :
    inner.length < packet.payload.length := by
  rw [sendDirect] at sent
  split at sent
  · cases sent
  · dsimp only at sent
    split at sent
    · cases sent
    · split at sent
      · split at sent
        · rename_i made
          cases sent
          exact wrap_along_longer sized (congrArg Prod.fst made)
        · cases sent
      · cases sent

theorem relay_longer (sized : S.Sized) (written : Wire.encode (.message m) = .ok inner)
    (sent : packet ∈ (e.relay S now m next).1) : packet.payload = inner ∨ inner.length < packet.payload.length := by
  rw [relay, written] at sent
  split at sent
  · cases sent
  · dsimp only at sent
    split at sent
    · rename_i bytes _ same
      cases same
      split at sent
      · exact Or.inl (congrArg Packet.payload (List.mem_singleton.mp sent))
      · split at sent
        · rename_i made
          rw [List.mem_singleton.mp sent]
          exact Or.inr (wrap_along_longer sized (congrArg Prod.fst made))
        · cases sent
      · cases sent
    · cases sent

end Engine

-- The padding has one octet at least, so a payload of whole blocks grows by a block of its own.
theorem sealed_size_exact {S : Suite} (sized : S.Sized) :
    (∀ (g : Random) (payload : Bytes) (route : Route) (recipient : PublicKey) (sender : KeyPair),
      S.agree sender.exchange recipient.exchange ≠ Octets.zero →
      ∃ m g', Message.wrap S g payload route recipient sender = (.ok m, g') ∧
        ((∃ bytes, Wire.encode (.message m) = .ok bytes) ↔
          152 + 24 * route.length + 16 * (payload.length / 16) ≤ Wire.maxBody) ∧
        ∀ bytes, Wire.encode (.message m) = .ok bytes →
          bytes.length = 152 + 24 * route.length + 16 * (payload.length / 16) + 8 ∧ payload.length < bytes.length) ∧
    (∀ (now : UInt64) (e : Engine) (inner : Bytes),
      (∀ target packet, (e.sendDirect S now target inner).1 = .ok packet → inner.length < packet.payload.length) ∧
      ∀ m next, Wire.encode (.message m) = .ok inner →
        ∀ packet ∈ (e.relay S now m next).1, packet.payload = inner ∨ inner.length < packet.payload.length) ∧
    (∀ (outer inner : Bytes) (m : Message) (recipient : KeyPair) (sender : PublicKey),
      Wire.decode outer = .ok (.message m) → m.unwrap S recipient sender = .ok inner → inner.length < outer.length) ∧
    ∀ (depth : Nat) (outer core : Bytes), Nested S depth outer core →
      depth + core.length ≤ outer.length ∧ depth ≤ Wire.maxBody := by
  refine ⟨fun g payload route recipient sender contributory => ?_, fun now e inner => ⟨fun target packet sent => ?_,
    fun m next written packet sent => ?_⟩, fun outer inner m recipient sender read opened => ?_,
    fun depth outer core nested => ?_⟩
  · obtain ⟨m, g', sealed⟩ := wrap_made g payload route contributory
    refine ⟨m, g', sealed, encode_wrap_iff sized sealed, fun bytes written => ?_⟩
    have length := length_encode_wrap sized sealed written
    rw [Message.sealedLength] at length
    exact ⟨length, by omega⟩
  · exact Engine.send_direct_longer sized sent
  · exact Engine.relay_longer sized written sent
  · exact Message.length_unwrap opened (Wire.encode_of_decode read).2
  · have room := nested.length sized
    exact ⟨by omega, nested.depth_le sized⟩

theorem sealed_size_exact_brim :
    let S := Suite.standard
    let sender : KeyPair := ⟨⟨1⟩, ⟨2⟩⟩
    let recipient : PublicKey := ⟨⟨3⟩, ⟨9⟩⟩
    let route : Route := [⟨⟨1⟩⟩, ⟨⟨2⟩⟩]
    (∃ m g' bytes, Message.wrap S (Random.ofSeed 0) (List.replicate 65343 0) route recipient sender = (.ok m, g') ∧
      Wire.encode (.message m) = .ok bytes ∧ bytes.length = 65536) ∧
    ∃ m g', Message.wrap S (Random.ofSeed 0) (List.replicate 65344 0) route recipient sender = (.ok m, g') ∧
      ¬ ∃ bytes, Wire.encode (.message m) = .ok bytes := by
  intro S sender recipient route
  have contributory : S.agree sender.exchange recipient.exchange ≠ Octets.zero := by decide +kernel
  have sizes := (sealed_size_exact standard_sized).1 (Random.ofSeed 0)
  have hops : route.length = 2 := rfl
  constructor
  · obtain ⟨m, g', sealed, fits, length⟩ := sizes (List.replicate 65343 0) route recipient sender contributory
    rw [List.length_replicate, hops] at fits length
    obtain ⟨bytes, written⟩ := fits.mpr (by decide)
    exact ⟨m, g', bytes, sealed, written, (length bytes written).1⟩
  · obtain ⟨m, g', sealed, fits, _⟩ := sizes (List.replicate 65344 0) route recipient sender contributory
    rw [List.length_replicate, hops] at fits
    exact ⟨m, g', sealed, fun written => absurd (fits.mp written) (by decide)⟩

end ZoneRouting

import Mathlib.Data.Finite.Prod
import Mathlib.Data.Fintype.Card
import ZoneRouting.Proofs.Size
import ZoneRouting.Proofs.Cipher.Aes256

set_option autoImplicit false

namespace ZoneRouting

instance : Finite Block :=
  Finite.of_injective (fun b : Block => (b.a.toFin, b.b.toFin, b.c.toFin, b.d.toFin)) (by
    rintro ⟨a, b, c, d⟩ ⟨a', b', c', d'⟩ same
    simp only [Prod.mk.injEq, UInt32.toFin_inj] at same
    obtain ⟨rfl, rfl, rfl, rfl⟩ := same
    rfl)

-- There are only so many blocks, and no two are enciphered alike: each is what some block is enciphered to.
theorem BlockCipher.encrypt_decrypt {cipher : BlockCipher} (inverse : ∀ b, cipher.decrypt (cipher.encrypt b) = b) (b : Block) :
    cipher.encrypt (cipher.decrypt b) = b := by
  have left : Function.LeftInverse cipher.decrypt cipher.encrypt := inverse
  exact left.rightInverse_of_surjective (Finite.injective_iff_surjective.mp left.injective) b

namespace Token

theorem chain_unchain {cipher : BlockCipher} (inverse : ∀ b, cipher.decrypt (cipher.encrypt b) = b) (last : Block)
    (cs : List Block) : chain cipher last (unchain cipher last cs) = cs := by
  induction cs generalizing last with
  | nil => rfl
  | cons c cs ih => rw [unchain, chain, Block.xor_xor, BlockCipher.encrypt_decrypt inverse, ih]

theorem encipher_unchain {cipher : BlockCipher} (inverse : ∀ b, cipher.decrypt (cipher.encrypt b) = b) {start : Block}
    {text payload : Bytes} (whole : text.length % 16 = 0)
    (unpadded : unpad? (join (unchain cipher start (blocks (text.length / 16) text))) = some payload) :
    encipher cipher start payload = text := by
  have count : (unchain cipher start (blocks (text.length / 16) text)).length = text.length / 16 := by
    rw [length_unchain, length_blocks]
  have length := length_join (unchain cipher start (blocks (text.length / 16) text))
  have padded := padded_of_unpad unpadded (by omega)
  have size : (payload ++ padding payload.length).length / 16 =
      (unchain cipher start (blocks (text.length / 16) text)).length := by
    rw [← padded, length]
    omega
  rw [encipher, size, ← padded, blocks_join, chain_unchain inverse, join_blocks (by omega)]

theorem write_of_read {S : Suite} {key : SharedKey}
    (inverse : ∀ b, (S.cipher key.cipher).decrypt ((S.cipher key.cipher).encrypt b) = b) {token payload : Bytes}
    (opened : read S key token = .ok payload) : token = write S key (Block.ofBytes (token.take 16)) payload := by
  obtain ⟨long, aligned, authentic, unpadded⟩ := read_ok opened
  have length : (token.take (token.length - 32)).length = token.length - 32 := List.length_take_of_le (by omega)
  have start : Block.ofBytes (token.take 16) = Block.ofBytes (token.take (token.length - 32)) := by
    rw [← @of_bytes_take (token.take (token.length - 32)) (by omega), List.take_take, Nat.min_eq_left (by omega)]
  have text := encipher_unchain inverse aligned unpadded
  have content : (Block.ofBytes (token.take (token.length - 32))).toBytes ++ (token.take (token.length - 32)).drop 16 =
      token.take (token.length - 32) := by
    rw [← Block.write_before_eq, write_before_drop (by omega)]
  rw [write, start, text, content, authentic, List.take_append_drop]

theorem join_flat_map (bs : List Block) : join bs = bs.flatMap Block.toBytes := by
  induction bs with
  | nil => rfl
  | cons b bs ih => exact congrArg b.writeBefore ih

theorem blocks_get {n i : Nat} (bytes : Bytes) (within : i < n) :
    (blocks n bytes)[i]? = some (Block.ofBytes (bytes.drop (16 * i))) := by
  induction n generalizing i bytes with
  | zero => cases within
  | succ n ih =>
      cases i with
      | zero => rfl
      | succ i =>
          rw [blocks, List.getElem?_cons_succ, ih _ (Nat.lt_of_succ_lt_succ within), List.drop_drop]
          congr 3
          omega

theorem chain_get {cipher : BlockCipher} {start c : Block} {bs : List Block} {i : Nat}
    (found : (chain cipher start bs)[i]? = some c) :
    ∃ b last, bs[i]? = some b ∧ (start :: chain cipher start bs)[i]? = some last ∧ c = cipher.encrypt (b.xor last) := by
  induction bs generalizing start i with
  | nil => cases found
  | cons b bs ih =>
      cases i with
      | zero =>
          cases found
          exact ⟨b, start, rfl, rfl, rfl⟩
      | succ i => exact ih found

theorem write_spelled (S : Suite) (key : SharedKey) (start : Block) (payload : Bytes) :
    ∃ n cs, n = 16 - payload.length % 16 ∧ 16 * cs.length = payload.length + n ∧
      write S key start payload = start.toBytes ++ cs.flatMap Block.toBytes ++
        S.mac key.mac (start.toBytes ++ cs.flatMap Block.toBytes) ∧
      ∀ i c, cs[i]? = some c → ∃ b last, (start :: cs)[i]? = some last ∧ c = (S.cipher key.cipher).encrypt b ∧
        b.toBytes = Bytes.xor (((payload ++ List.replicate n (UInt8.ofNat n)).drop (16 * i)).take 16) last.toBytes := by
  have length := length_padded payload
  refine ⟨_, chain (S.cipher key.cipher) start (blocks ((payload ++ padding payload.length).length / 16)
    (payload ++ padding payload.length)), rfl, ?_, ?_, fun i c found => ?_⟩
  · rw [length_chain, length_blocks, length]
    omega
  · rw [write, encipher, ← join_flat_map]
  · obtain ⟨b, last, padded, before, enciphered⟩ := chain_get found
    have within : i < (payload ++ padding payload.length).length / 16 := by
      have inside := (List.getElem?_eq_some_iff.mp padded).1
      rwa [length_blocks] at inside
    rw [blocks_get _ within] at padded
    cases padded
    refine ⟨_, last, before, enciphered, ?_⟩
    have long : ((payload ++ padding payload.length).drop (16 * i)).length ≥ 16 := by
      rw [List.length_drop]
      omega
    rw [Block.to_bytes_xor, ← of_bytes_take long, Block.to_bytes_of_bytes (List.length_take_of_le long)]
    rfl

end Token

theorem standard_decrypt_encrypt (key : Bytes) (block : Block) :
    (Suite.standard.cipher key).decrypt ((Suite.standard.cipher key).encrypt block) = block :=
  Aes256.decrypt_encrypt (Aes256.Schedule.ofKey key) block

-- The second part asks nothing of whoever made the message.
theorem unwrap_exact {S : Suite} (sized : S.Sized)
    (inverse : ∀ key block, (S.cipher key).decrypt ((S.cipher key).encrypt block) = block) (recipient : KeyPair) :
    (∀ (g : Random) (payload : Bytes) (route : Route) (sender : KeyPair),
      S.agree sender.exchange (S.exchangeKey recipient.exchange) =
        S.agree recipient.exchange (S.exchangeKey sender.exchange) →
      S.agree sender.exchange (S.exchangeKey recipient.exchange) ≠ Octets.zero →
      S.verify (S.signingKey sender.signing) payload (S.sign sender.signing payload) = .ok () →
      ∃ m g', Message.wrap S g payload route (recipient.publicKey S) sender = (.ok m, g') ∧ m.route = route ∧
        m.unwrap S recipient (sender.publicKey S) = .ok payload) ∧
    ∀ (m : Message) (key : PublicKey) (payload : Bytes),
      m.unwrap S recipient key = .ok payload ↔
        ∃ shared, recipient.sharedKey S key = .ok shared ∧
          m.payload = Token.write S shared (Block.ofBytes (m.payload.take 16)) payload ∧
          key.verify S payload m.signature = .ok () := by
  refine ⟨fun g payload route sender symmetric contributory right => ?_, fun m key payload => ?_⟩
  · have agreed : sender.sharedKey S (recipient.publicKey S) = .ok _ := if_neg contributory
    have sealed : ∃ m g', Message.wrap S g payload route (recipient.publicKey S) sender = (.ok m, g') := by
      rw [Message.wrap, agreed]
      exact ⟨_, _, rfl⟩
    obtain ⟨m, g', sealed⟩ := sealed
    obtain ⟨_, _, along, _⟩ := wrap_ok sealed
    exact ⟨m, g', sealed, along, unwrap_wrap inverse sized.length_mac symmetric (sized.length_sign _ _) right sealed⟩
  · rw [unwrap_ok_iff]
    refine exists_congr fun shared => and_congr_right fun _ => and_congr_left fun _ => ⟨fun opened => ?_, fun written => ?_⟩
    · exact Token.write_of_read (inverse shared.cipher) opened
    · rw [written]
      exact Token.read_write (inverse shared.cipher) (sized.length_mac shared.mac) _ payload

theorem unwrap_exact_standard :
    let S := Suite.standard
    let sender : KeyPair := ⟨⟨1⟩, ⟨2⟩⟩
    let recipient : KeyPair := ⟨⟨3⟩, ⟨4⟩⟩
    ∃ m g', Message.wrap S (Random.ofSeed 0) [1, 2, 3] [] (recipient.publicKey S) sender = (.ok m, g') ∧
      m.unwrap S recipient (sender.publicKey S) = .ok [1, 2, 3] ∧
      ∃ shared, recipient.sharedKey S (sender.publicKey S) = .ok shared ∧
        m.payload = Token.write S shared (Block.ofBytes (m.payload.take 16)) [1, 2, 3] := by
  intro S sender recipient
  have symmetric : S.agree sender.exchange (S.exchangeKey recipient.exchange) =
      S.agree recipient.exchange (S.exchangeKey sender.exchange) := by decide +kernel
  have contributory : S.agree sender.exchange (S.exchangeKey recipient.exchange) ≠ Octets.zero := by decide +kernel
  have accepted : (S.verify (S.signingKey sender.signing) [1, 2, 3] (S.sign sender.signing [1, 2, 3])).toOption = some () := by
    decide +kernel
  have right : ∀ verdict : Except Curve.SignatureFault Unit, verdict.toOption = some () → verdict = .ok ()
    | .ok (), _ => rfl
  obtain ⟨opens, exact'⟩ := unwrap_exact standard_sized standard_decrypt_encrypt recipient
  obtain ⟨m, g', sealed, _, opened⟩ := opens (Random.ofSeed 0) [1, 2, 3] [] sender symmetric contributory (right _ accepted)
  obtain ⟨shared, agreed, written, _⟩ := (exact' m (sender.publicKey S) [1, 2, 3]).mp opened
  exact ⟨m, g', sealed, opened, shared, agreed, written⟩

end ZoneRouting

import ZoneRouting.Sealing

set_option autoImplicit false

namespace ZoneRouting

namespace Token

theorem length_padding (n : Nat) : (padding n).length = 16 - n % 16 := List.length_replicate

theorem length_padded (payload : Bytes) :
    (payload ++ padding payload.length).length = 16 * (payload.length / 16 + 1) := by
  rw [List.length_append, length_padding]
  omega

theorem unpad_padded (payload : Bytes) : unpad? (payload ++ padding payload.length) = some payload := by
  have bound : payload.length % 16 < 16 := Nat.mod_lt _ (by decide)
  obtain ⟨n, count⟩ : ∃ n, 16 - payload.length % 16 = n + 1 := ⟨15 - payload.length % 16, by omega⟩
  have octet : (UInt8.ofNat (n + 1)).toNat = n + 1 := by
    rw [UInt8.toNat_ofNat']
    omega
  have last : (payload ++ padding payload.length).getLast? = some (UInt8.ofNat (n + 1)) := by
    simp [padding, count, List.getLast?_append, List.getLast?_replicate]
  have length : (payload ++ padding payload.length).length = payload.length + (n + 1) := by
    rw [List.length_append, length_padding, count]
  have within : ¬ (n + 1 = 0 ∨ 16 < n + 1 ∨ payload.length + (n + 1) < n + 1) := by omega
  simp only [unpad?, last, octet, length, if_neg within, Nat.add_sub_cancel, List.take_left]
  rw [if_pos (by rw [padding, count])]

theorem unpad_ok {text payload : Bytes} (unpadded : unpad? text = some payload) :
    ∃ last : UInt8, 0 < last.toNat ∧ last.toNat ≤ 16 ∧ text = payload ++ List.replicate last.toNat last := by
  rw [unpad?] at unpadded
  split at unpadded
  · cases unpadded
  · rename_i last ends
    dsimp only at unpadded
    split at unpadded
    · cases unpadded
    · rename_i within
      split at unpadded
      · rename_i spelled
        cases unpadded
        exact ⟨last, by omega, by omega, spelled⟩
      · cases unpadded

theorem of_bytes_take {bytes : Bytes} (long : 16 ≤ bytes.length) : Block.ofBytes (bytes.take 16) = Block.ofBytes bytes := by
  match bytes, long with
  | _ :: _ :: _ :: _ :: _ :: _ :: _ :: _ :: _ :: _ :: _ :: _ :: _ :: _ :: _ :: _ :: rest, _ => rfl

theorem write_before_drop {bytes : Bytes} (long : 16 ≤ bytes.length) :
    (Block.ofBytes bytes).writeBefore (bytes.drop 16) = bytes := by
  have front : (Block.ofBytes bytes).toBytes = bytes.take 16 := by
    rw [← of_bytes_take long]
    exact Block.to_bytes_of_bytes (List.length_take_of_le long)
  rw [Block.write_before_eq, front, List.take_append_drop]

theorem of_bytes_write_before (b : Block) (rest : Bytes) : Block.ofBytes (b.writeBefore rest) = b := by
  simp only [Block.writeBefore, Block.ofBytes, Block.column_top]

theorem length_join (bs : List Block) : (join bs).length = 16 * bs.length := by
  induction bs with
  | nil => rfl
  | cons b bs ih =>
      have whole : join (b :: bs) = b.toBytes ++ join bs := rfl
      rw [whole, List.length_append, ih, Block.length_to_bytes, List.length_cons]
      omega

theorem blocks_join (bs : List Block) : blocks bs.length (join bs) = bs := by
  induction bs with
  | nil => rfl
  | cons b bs ih =>
      have whole : join (b :: bs) = b.writeBefore (join bs) := rfl
      have rest : (b.writeBefore (join bs)).drop 16 = join bs := rfl
      rw [whole, List.length_cons, blocks, of_bytes_write_before, rest, ih]

theorem length_blocks (n : Nat) (bytes : Bytes) : (blocks n bytes).length = n := by
  induction n generalizing bytes with
  | zero => rfl
  | succ n ih => rw [blocks, List.length_cons, ih]

theorem join_blocks {n : Nat} {bytes : Bytes} (length : bytes.length = 16 * n) : join (blocks n bytes) = bytes := by
  induction n generalizing bytes with
  | zero => rw [List.length_eq_zero_iff.mp length]; rfl
  | succ n ih =>
      have rest : join (blocks n (bytes.drop 16)) = bytes.drop 16 := ih (by rw [List.length_drop]; omega)
      have whole : join (blocks (n + 1) bytes) = (Block.ofBytes bytes).writeBefore (join (blocks n (bytes.drop 16))) := rfl
      rw [whole, rest, write_before_drop (by omega)]

theorem length_chain (cipher : BlockCipher) (last : Block) (bs : List Block) :
    (chain cipher last bs).length = bs.length := by
  induction bs generalizing last with
  | nil => rfl
  | cons b bs ih => rw [chain, List.length_cons, ih, List.length_cons]

theorem unchain_chain {cipher : BlockCipher} (inverse : ∀ b, cipher.decrypt (cipher.encrypt b) = b) (last : Block)
    (bs : List Block) : unchain cipher last (chain cipher last bs) = bs := by
  induction bs generalizing last with
  | nil => rfl
  | cons b bs ih => rw [chain, unchain, inverse, Block.xor_xor, ih]

theorem length_encipher (cipher : BlockCipher) (start : Block) (payload : Bytes) :
    (encipher cipher start payload).length = 16 * (payload.length / 16 + 1) := by
  rw [encipher, length_join, length_chain, length_blocks, length_padded]
  omega

theorem read_write {S : Suite} {key : SharedKey}
    (inverse : ∀ b, (S.cipher key.cipher).decrypt ((S.cipher key.cipher).encrypt b) = b)
    (code : ∀ content, (S.mac key.mac content).length = 32) (start : Block) (payload : Bytes) :
    read S key (write S key start payload) = .ok payload := by
  obtain ⟨text, textEq⟩ : ∃ text, text = encipher (S.cipher key.cipher) start payload := ⟨_, rfl⟩
  have textLength : text.length = 16 * (payload.length / 16 + 1) := by rw [textEq, length_encipher]
  have whole : write S key start payload = (start.toBytes ++ text) ++ S.mac key.mac (start.toBytes ++ text) := by
    rw [write, textEq]
  have length : (write S key start payload).length - 32 = (start.toBytes ++ text).length := by
    rw [whole, List.length_append, code]
    omega
  have long : ¬ (write S key start payload).length < 64 := by
    rw [whole, List.length_append, code, List.length_append, Block.length_to_bytes, textLength]
    omega
  have content : (write S key start payload).take ((write S key start payload).length - 32) = start.toBytes ++ text := by
    rw [length, whole, List.take_left]
  have tail : (write S key start payload).drop ((write S key start payload).length - 32) =
      S.mac key.mac (start.toBytes ++ text) := by
    rw [length, whole, List.drop_left]
  have middle : (start.toBytes ++ text).drop 16 = text := rfl
  have first : Block.ofBytes (start.toBytes ++ text) = start := of_bytes_write_before start text
  have plain : unchain (S.cipher key.cipher) start (blocks (text.length / 16) text) =
      blocks ((payload ++ padding payload.length).length / 16) (payload ++ padding payload.length) := by
    have count : text.length / 16 = (chain (S.cipher key.cipher) start
        (blocks ((payload ++ padding payload.length).length / 16) (payload ++ padding payload.length))).length := by
      rw [length_chain, length_blocks, textLength, length_padded]
    rw [count, textEq, encipher, blocks_join, unchain_chain inverse]
  have padded : join (blocks ((payload ++ padding payload.length).length / 16) (payload ++ padding payload.length)) =
      payload ++ padding payload.length := by
    apply join_blocks
    rw [length_padded]
    omega
  have aligned : text.length % 16 = 0 := by omega
  simp only [read, if_neg long, content, tail, middle, aligned, ne_eq, not_true_eq_false, if_false, first, plain,
    padded, unpad_padded]

theorem read_ok {S : Suite} {key : SharedKey} {token payload : Bytes} (opened : read S key token = .ok payload) :
    let content := token.take (token.length - 32)
    let text := content.drop 16
    64 ≤ token.length ∧ text.length % 16 = 0 ∧ S.mac key.mac content = token.drop (token.length - 32) ∧
    unpad? (join (unchain (S.cipher key.cipher) (Block.ofBytes content) (blocks (text.length / 16) text))) = some payload := by
  rw [read] at opened
  split at opened
  · cases opened
  · rename_i long
    dsimp only at opened
    split at opened
    · cases opened
    · rename_i aligned
      split at opened
      · cases opened
      · rename_i authentic
        split at opened
        · rename_i unpadded
          cases opened
          exact ⟨Nat.le_of_not_lt long, Decidable.not_not.mp aligned, Decidable.not_not.mp authentic, unpadded⟩
        · cases opened

end Token

-- What devices rely on of their suite, said of messages alone: opening with the right keys gives
-- exactly what was sealed.
def Suite.Opens (S : Suite) : Prop :=
  ∀ (g g' : Random) (payload : Bytes) (route : Route) (recipient sender : KeyPair) (m : Message),
    Message.wrap S g payload route (recipient.publicKey S) sender = (.ok m, g') →
      m.unwrap S recipient (sender.publicKey S) = .ok payload

theorem wrap_made {S : Suite} {key : PublicKey} {sender : KeyPair} (g : Random) (payload : Bytes) (route : Route)
    (contributory : S.agree sender.exchange key.exchange ≠ Octets.zero) :
    ∃ m g', Message.wrap S g payload route key sender = (.ok m, g') := by
  have agreed : sender.sharedKey S key = .ok _ := if_neg contributory
  rw [Message.wrap, agreed]
  exact ⟨_, _, rfl⟩

theorem wrap_ok {S : Suite} {g g' : Random} {payload : Bytes} {route : Route} {key : PublicKey} {sender : KeyPair}
    {m : Message} (sealed : Message.wrap S g payload route key sender = (.ok m, g')) :
    ∃ shared, sender.sharedKey S key = .ok shared ∧ m.route = route ∧
      m.payload = (Token.issue S g shared payload).1 ∧ m.signature = sender.sign S payload := by
  unfold Message.wrap at sealed
  cases agreed : sender.sharedKey S key with
  | error fault =>
      rw [agreed] at sealed
      cases sealed
  | ok shared =>
      rw [agreed] at sealed
      cases sealed
      exact ⟨shared, rfl, rfl, rfl, rfl⟩

theorem wrap_payload {S : Suite} (inverse : ∀ key block, (S.cipher key).decrypt ((S.cipher key).encrypt block) = block)
    (code : ∀ key content, (S.mac key content).length = 32) {g g' g₁ g₁' : Random} {payload payload' : Bytes}
    {route route' : Route} {key : PublicKey} {sender : KeyPair} {m : Message}
    (first : Message.wrap S g payload route key sender = (.ok m, g₁))
    (second : Message.wrap S g' payload' route' key sender = (.ok m, g₁')) : payload = payload' := by
  obtain ⟨shared, agreed, _, token, _⟩ := wrap_ok first
  obtain ⟨shared', agreed', _, token', _⟩ := wrap_ok second
  cases agreed.symm.trans agreed'
  have opens : ∀ (g : Random) (p : Bytes), Token.read S shared (Token.issue S g shared p).1 = .ok p :=
    fun _ p => Token.read_write (inverse shared.cipher) (code shared.mac) _ p
  have opened := opens g payload
  rw [← token, token', opens g' payload'] at opened
  exact (Except.ok.inj opened).symm

theorem verify_ok_iff {S : Suite} {key : PublicKey} {data signature : Bytes} :
    key.verify S data signature = .ok () ↔ signature.length = 64 ∧ S.verify key.signing data signature = .ok () := by
  rw [PublicKey.verify]
  by_cases long : signature.length = 64
  · rw [if_neg (not_not_intro long), and_iff_right long]
    rcases S.verify key.signing data signature with (_ | _ | _) | _ <;> simp
  · rw [if_pos long]
    exact iff_of_false nofun fun accepted => long accepted.1

theorem unwrap_ok_iff {S : Suite} {m : Message} {recipient : KeyPair} {key : PublicKey} {payload : Bytes} :
    m.unwrap S recipient key = .ok payload ↔
      ∃ shared, recipient.sharedKey S key = .ok shared ∧ Token.read S shared m.payload = .ok payload ∧
        key.verify S payload m.signature = .ok () := by
  rw [Message.unwrap]
  constructor
  · intro opened
    split at opened
    · cases opened
    · rename_i shared agreed
      split at opened
      · cases opened
      · rename_i read
        split at opened
        · cases opened
        · rename_i accepted
          cases opened
          exact ⟨shared, agreed, read, accepted⟩
  · rintro ⟨shared, agreed, read, accepted⟩
    simp only [agreed, read, accepted]

theorem shared_key_comm {S : Suite} {a b : KeyPair}
    (symmetric : S.agree a.exchange (S.exchangeKey b.exchange) = S.agree b.exchange (S.exchangeKey a.exchange)) :
    a.sharedKey S (b.publicKey S) = b.sharedKey S (a.publicKey S) := by
  unfold KeyPair.sharedKey
  dsimp only [KeyPair.publicKey]
  rw [symmetric]

theorem unwrap_wrap {S : Suite} (inverse : ∀ key block, (S.cipher key).decrypt ((S.cipher key).encrypt block) = block)
    (code : ∀ key content, (S.mac key content).length = 32) {g g' : Random} {payload : Bytes} {route : Route}
    {recipient sender : KeyPair} {m : Message}
    (symmetric : S.agree sender.exchange (S.exchangeKey recipient.exchange) =
      S.agree recipient.exchange (S.exchangeKey sender.exchange))
    (length : (sender.sign S payload).length = 64)
    (right : S.verify (S.signingKey sender.signing) payload (sender.sign S payload) = .ok ())
    (sealed : Message.wrap S g payload route (recipient.publicKey S) sender = (.ok m, g')) :
    m.unwrap S recipient (sender.publicKey S) = .ok payload := by
  obtain ⟨shared, agreed, _, token, signature⟩ := wrap_ok sealed
  rw [shared_key_comm symmetric] at agreed
  have content : Token.read S shared m.payload = .ok payload := by
    rw [token]
    exact Token.read_write (inverse shared.cipher) (code shared.mac) _ payload
  have accepted : (sender.publicKey S).verify S payload (sender.sign S payload) = .ok () := verify_ok_iff.mpr ⟨length, right⟩
  exact unwrap_ok_iff.mpr ⟨shared, agreed, content, signature ▸ accepted⟩

theorem lawful_opens {S : Suite} (lawful : S.Lawful) : S.Opens := by
  intro g g' payload route recipient sender m sealed
  exact unwrap_wrap lawful.decrypt_encrypt lawful.length_mac (lawful.agree_comm sender.exchange recipient.exchange)
    (lawful.length_sign sender.signing payload) (lawful.verify_sign sender.signing payload) sealed

-- What devices rely on so that every message between them can be sealed and is accepted: honest keys
-- never agree on zeros, they can be read, and signatures have their length.
structure Suite.Usable (S : Suite) : Prop where
  opens : S.Opens
  contributory : ∀ a b, S.agree a (S.exchangeKey b) ≠ Octets.zero
  isPoint : ∀ secret, S.isPoint (S.signingKey secret) = true
  length_sign : ∀ secret message, (S.sign secret message).length = 64

-- Operations that hide nothing but obey the laws, and that are quick to run.
def Suite.plain : Suite where
  signingKey secret := secret
  exchangeKey secret := secret
  agree secret peer := ⟨secret.value ||| peer.value ||| 1⟩
  sign secret message := secret.toBytes ++ (Octets.ofBytes message : Octets 32).toBytes
  verify key message signature :=
    if signature = key.toBytes ++ (Octets.ofBytes message : Octets 32).toBytes then .ok () else .error .equation
  isPoint _ := true
  derive agreed := ⟨agreed, agreed⟩
  mac key message := (Octets.ofBytes (key ++ message) : Octets 32).toBytes
  cipher key := ⟨fun b => b.xor (Block.ofBytes key), fun b => b.xor (Block.ofBytes key)⟩

theorem plain_lawful : Suite.plain.Lawful where
  decrypt_encrypt key block := Block.xor_xor block (Block.ofBytes key)
  agree_comm a b := congrArg Octets.mk (congrArg (· ||| 1) (BitVec.or_comm a.value b.value))
  verify_sign secret message := if_pos rfl
  isPoint_signingKey _ := rfl
  length_sign secret message := by
    change (secret.toBytes ++ (Octets.ofBytes message : Octets 32).toBytes).length = 64
    rw [List.length_append, Octets.length_to_bytes, Octets.length_to_bytes]
  length_mac key message := Octets.length_to_bytes _

theorem plain_usable : Suite.plain.Usable where
  opens := lawful_opens plain_lawful
  contributory a b := by
    intro zero
    have value : a.value ||| b.value ||| 1 = 0 := congrArg Octets.value zero
    exact absurd (BitVec.or_eq_zero_iff.mp value).2 (by decide)
  isPoint := plain_lawful.isPoint_signingKey
  length_sign := plain_lawful.length_sign

end ZoneRouting

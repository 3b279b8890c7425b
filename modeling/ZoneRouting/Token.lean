import ZoneRouting.Suite
import ZoneRouting.Fault
/-!
Tokens: payloads enciphered and authenticated under a shared key. A token is a starting block, the
payload padded to whole blocks and enciphered with each block tied to the one before it, and the
authentication code of both.
-/
namespace ZoneRouting.Token

-- The octets that bring a payload to whole blocks: between one and sixteen, each telling how many
-- they are.
def padding (length : Nat) : Bytes :=
  let n := 16 - length % 16
  List.replicate n (UInt8.ofNat n)

def unpad? (text : Bytes) : Option Bytes :=
  match text.getLast? with
  | none => none
  | some last =>
    let n := last.toNat
    if n = 0 ∨ 16 < n ∨ text.length < n then none
    else
      let payload := text.take (text.length - n)
      if text = payload ++ List.replicate n last then some payload else none

def blocks : (n : Nat) → Bytes → List Block
  | 0, _ => []
  | n + 1, bytes => Block.ofBytes bytes :: blocks n (bytes.drop 16)

def join (bs : List Block) : Bytes := bs.foldr Block.writeBefore []

-- Enciphers blocks, each after adding the block enciphered before it.
def chain (cipher : BlockCipher) : Block → List Block → List Block
  | _, [] => []
  | last, b :: bs =>
    let c := cipher.encrypt (b.xor last)
    c :: chain cipher c bs

def unchain (cipher : BlockCipher) : Block → List Block → List Block
  | _, [] => []
  | last, c :: cs => (cipher.decrypt c).xor last :: unchain cipher c cs

def encipher (cipher : BlockCipher) (start : Block) (payload : Bytes) : Bytes :=
  let padded := payload ++ padding payload.length
  join (chain cipher start (blocks (padded.length / 16) padded))

def write (S : Suite) (key : SharedKey) (start : Block) (payload : Bytes) : Bytes :=
  let content := start.toBytes ++ encipher (S.cipher key.cipher) start payload
  content ++ S.mac key.mac content

def issue (S : Suite) (g : Random) (key : SharedKey) (payload : Bytes) : Bytes × Random :=
  let (start, g) := g.octets 16
  (write S key (Block.ofBytes start) payload, g)

def read (S : Suite) (key : SharedKey) (token : Bytes) : Except CryptoFault Bytes :=
  if token.length < 64 then .error .tokenTooShort
  else
    let content := token.take (token.length - 32)
    let text := content.drop 16
    if text.length % 16 ≠ 0 then .error .unaligned
    else if S.mac key.mac content ≠ token.drop (token.length - 32) then .error .authentication
    else
      let plain :=
        join (unchain (S.cipher key.cipher) (Block.ofBytes content)
          (blocks (text.length / 16) text))
      match unpad? plain with
      | some payload => .ok payload
      | none => .error .padding

end ZoneRouting.Token

import ZoneRouting.Proofs.Sealing
import ZoneRouting.Proofs.Wire.Canonical

set_option autoImplicit false

namespace ZoneRouting

variable {n : Nat} (S : Suite) (who : Fin n → Identity)

def Owns (id : Identifier) (key : PublicKey) : Prop := ∃ u, (who u).id = id ∧ key = (who u).publicKey S

structure Sealed (u v : Fin n) (payload bytes : Bytes) : Prop where
  message : ∃ g g' m route, Message.wrap S g payload route ((who v).publicKey S) (who u).keys = (.ok m, g') ∧
    route.head? = some (who u).id ∧ route.getLast? = some (who v).id ∧ Wire.encode (.message m) = .ok bytes

-- What honest devices put into the air: datagrams that tell the truth about keys, and messages that
-- hold such octets or, in the end, the payload of an application, which belongs to their recipient.
-- The payload that is carried, if any, stands beside the octets.
inductive Genuine : Bytes → Option (Identifier × Bytes) → Prop
  | advertisement (a : Advertisement) (bytes : Bytes) (owned : Owns S who a.origin a.key)
      (written : Wire.encode (.advertisement a) = .ok bytes) : Genuine bytes none
  | discovery (d : Discovery) (requester : Identifier) (bytes : Bytes) (first : d.requester? = some requester)
      (owned : Owns S who requester d.origin) (written : Wire.encode (.discovery d) = .ok bytes) : Genuine bytes none
  | acknowledgement (a : Acknowledgement) (target : Identifier) (bytes : Bytes) (last : a.target? = some target)
      (owned : Owns S who target a.targetKey) (written : Wire.encode (.acknowledgement a) = .ok bytes) :
      Genuine bytes none
  | payload (u v : Fin n) (payload bytes : Bytes) (untagged : Kind.ofBytes? payload = none)
      (made : Sealed S who u v payload bytes) : Genuine bytes (some ((who v).id, payload))
  | nested (u v : Fin n) (content bytes : Bytes) (load : Option (Identifier × Bytes)) (inner : Genuine content load)
      (made : Sealed S who u v content bytes) : Genuine bytes load

variable {S} {who}

theorem genuine_tagged {bytes : Bytes} {load : Option (Identifier × Bytes)} (genuine : Genuine S who bytes load) :
    ∃ kind, Kind.ofBytes? bytes = some kind := by
  cases genuine with
  | advertisement a _ _ written => exact ⟨_, Wire.kind_encode written⟩
  | discovery d _ _ _ _ written => exact ⟨_, Wire.kind_encode written⟩
  | acknowledgement a _ _ _ _ written => exact ⟨_, Wire.kind_encode written⟩
  | payload u v p _ _ made =>
      obtain ⟨_, _, m, _, _, _, _, written⟩ := made.message
      exact ⟨_, Wire.kind_encode written⟩
  | nested u v content _ _ _ made =>
      obtain ⟨_, _, m, _, _, _, _, written⟩ := made.message
      exact ⟨_, Wire.kind_encode written⟩

theorem sealed_kind {u v : Fin n} {payload bytes : Bytes} (made : Sealed S who u v payload bytes) :
    Kind.ofBytes? bytes = some .message := by
  obtain ⟨_, _, m, _, _, _, _, written⟩ := made.message
  exact Wire.kind_encode written

theorem sealed_message (opens : S.Opens) {u v : Fin n} {payload bytes : Bytes} (made : Sealed S who u v payload bytes)
    {m : Message} (read : Wire.encode (.message m) = .ok bytes) :
    m.sender? = some (who u).id ∧ m.recipient? = some (who v).id ∧
      m.unwrap S (who v).keys ((who u).publicKey S) = .ok payload := by
  obtain ⟨g, g', found, route, sealing, first, last, written⟩ := made.message
  have same : Datagram.message m = .message found := Wire.encode_injective read written
  cases same
  obtain ⟨_, _, route', _⟩ := wrap_ok sealing
  rw [Message.sender?, Message.recipient?, route']
  exact ⟨first, last, opens g g' payload route (who v).keys (who u).keys m sealing⟩

theorem sealed_unique (opens : S.Opens) (distinct : Function.Injective fun u => (who u).id) {u u' v v' : Fin n}
    {payload payload' bytes : Bytes} (made : Sealed S who u v payload bytes)
    (made' : Sealed S who u' v' payload' bytes) : v = v' ∧ payload = payload' := by
  obtain ⟨_, _, m, _, _, _, _, written⟩ := id made.message
  obtain ⟨first, last, content⟩ := sealed_message opens made written
  obtain ⟨first', last', content'⟩ := sealed_message opens made' written
  have sender : u = u' := distinct (Option.some.inj (first.symm.trans first'))
  have recipient : v = v' := distinct (Option.some.inj (last.symm.trans last'))
  subst sender recipient
  exact ⟨rfl, Except.ok.inj (content.symm.trans content')⟩

theorem genuine_plain {bytes : Bytes} {load : Option (Identifier × Bytes)} (genuine : Genuine S who bytes load)
    {d : Datagram} (written : Wire.encode d = .ok bytes) (other : d.kind ≠ .message) : load = none := by
  cases genuine with
  | advertisement | discovery | acknowledgement => rfl
  | payload u v p _ _ made =>
      exact absurd (Option.some.inj ((Wire.kind_encode written).symm.trans (sealed_kind made))) other
  | nested u v content _ _ _ made =>
      exact absurd (Option.some.inj ((Wire.kind_encode written).symm.trans (sealed_kind made))) other

theorem genuine_unique (opens : S.Opens) (distinct : Function.Injective fun u => (who u).id) {bytes : Bytes}
    {load load' : Option (Identifier × Bytes)} (genuine : Genuine S who bytes load)
    (genuine' : Genuine S who bytes load') : load = load' := by
  induction genuine generalizing load' with
  | advertisement a bytes _ written => exact (genuine_plain genuine' written nofun).symm
  | discovery d _ bytes _ _ written => exact (genuine_plain genuine' written nofun).symm
  | acknowledgement a _ bytes _ _ written => exact (genuine_plain genuine' written nofun).symm
  | payload u v p bytes untagged made =>
      cases genuine' with
      | advertisement a _ _ written | discovery a _ _ _ _ written | acknowledgement a _ _ _ _ written =>
          cases (sealed_kind made).symm.trans (Wire.kind_encode written)
      | payload u' v' p' _ _ made' =>
          obtain ⟨recipient, same⟩ := sealed_unique opens distinct made made'
          rw [recipient, same]
      | nested u' v' content _ _ inner made' =>
          obtain ⟨_, same⟩ := sealed_unique opens distinct made made'
          obtain ⟨kind, tagged⟩ := genuine_tagged inner
          rw [← same, untagged] at tagged
          cases tagged
  | nested u v content bytes load inner made ih =>
      cases genuine' with
      | advertisement a _ _ written | discovery a _ _ _ _ written | acknowledgement a _ _ _ _ written =>
          cases (sealed_kind made).symm.trans (Wire.kind_encode written)
      | payload u' v' p' _ untagged made' =>
          obtain ⟨_, same⟩ := sealed_unique opens distinct made made'
          obtain ⟨kind, tagged⟩ := genuine_tagged inner
          rw [same, untagged] at tagged
          cases tagged
      | nested u' v' content' _ _ inner' made' =>
          obtain ⟨_, same⟩ := sealed_unique opens distinct made made'
          subst same
          exact ih inner'

end ZoneRouting

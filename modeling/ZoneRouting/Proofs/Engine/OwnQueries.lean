import ZoneRouting.Proofs.Engine.Passages

set_option autoImplicit false

namespace ZoneRouting.Engine

-- Whatever call it came of, the packet takes a query to a border node with which the device itself searches for another one.
def OwnQuery (S : Suite) (e : Engine) (target : Identifier) (packet : Packet) : Prop :=
  ∃ border d bytes, d.requester? = some e.id ∧ d.destination = target ∧ Wire.encode (.discovery d) = .ok bytes ∧
    e.Ships S border bytes packet

-- The packet is a message that the device has just heard. It can be a query of its own that somebody sends it again.
def Repeats (S : Suite) (e : Engine) : Input → Packet → Prop
  | .send .., _ => False
  | .receive _ octets, packet => ∃ m next bytes, e.content? S octets = some (.datagram (.message m)) ∧
      Wire.encode (.message m) = .ok bytes ∧ packet = Packet.single next bytes

variable {S : Suite} {now : UInt64} {e after : Engine} {target k : Identifier} {payload payload' bytes : Bytes}
  {route route' : Route} {packet : Packet}

section

variable (sized : S.Sized) (inverse : ∀ key block, (S.cipher key).decrypt ((S.cipher key).encrypt block) = block)

include sized inverse

theorem Wraps.payload_unique (first : e.Wraps S target payload route bytes) (second : e.Wraps S k payload' route' bytes) :
    payload = payload' := by
  obtain ⟨proper, key, g, g₁, m, known, sealed, written⟩ := first
  obtain ⟨proper', key', g', g₁', m', known', sealed', written'⟩ := second
  cases Wire.encode_injective written written'
  obtain ⟨_, _, along, _⟩ := wrap_ok sealed
  obtain ⟨_, _, along', _⟩ := wrap_ok sealed'
  have hops := along.symm.trans along'
  have same : some target = some k := proper.1.2.symm.trans (hops ▸ proper'.1.2)
  cases same
  cases known.symm.trans known'
  exact wrap_payload inverse sized.length_mac sealed sealed'

theorem Ships.payload_unique (first : e.Ships S target payload packet) (second : e.Ships S k payload' packet) :
    payload = payload' := by
  obtain ⟨_, _, _, same, wraps⟩ := first
  obtain ⟨_, _, _, same', wraps'⟩ := second
  cases same.symm.trans same'
  exact wraps.payload_unique sized inverse wraps'

theorem OwnQuery.content (query : e.OwnQuery S target packet) (ships : e.Ships S k payload packet) :
    ∃ d, d.requester? = some e.id ∧ d.destination = target ∧ Wire.encode (.discovery d) = .ok payload := by
  obtain ⟨_, d, _, first, last, written, ships'⟩ := query
  exact ⟨d, first, last, ships'.payload_unique sized inverse ships ▸ written⟩

theorem OwnQuery.holds (query : e.OwnQuery S target packet) {d : Datagram} (written : Wire.encode d = .ok bytes)
    (ships : e.Ships S k bytes packet) :
    ∃ query, d = .discovery query ∧ query.requester? = some e.id ∧ query.destination = target := by
  obtain ⟨query, first, last, written'⟩ := query.content sized inverse ships
  exact ⟨query, Wire.encode_injective written written', first, last⟩

theorem OwnQuery.uncarried (query : e.OwnQuery S target packet) (untagged : Kind.ofBytes? payload = none) :
    ¬ e.Carries S k payload packet := by
  intro carries
  cases carries with
  | direct ships =>
      obtain ⟨_, _, _, written⟩ := query.content sized inverse ships
      cases untagged.symm.trans (Wire.kind_encode written)
  | layered border rest inner wraps ships =>
      obtain ⟨_, _, _, _, m, _, _, written⟩ := wraps
      obtain ⟨_, other, _⟩ := query.holds sized inverse written ships
      cases other

-- What a device passes on is not its own query, because somebody else is first on its route.
theorem Emits.own_query {d : Datagram} (keeps : e.Keeps after) (checked : Wire.check d = .ok ())
    (emits : Emits S now e after d packet) (query : after.OwnQuery S target packet) :
    (∃ a, d = .acknowledgement a) ∨
      ∃ m next bytes, d = .message m ∧ Wire.encode (.message m) = .ok bytes ∧ packet = Packet.single next bytes := by
  have holds : ∀ {d : Datagram} {book : RouteBook} {k : Identifier} {bytes : Bytes}, Wire.encode d = .ok bytes →
      after.Mails S book k bytes packet → ∃ query, d = .discovery query ∧ query.requester? = some after.id := by
    intro d book k bytes written mails
    obtain ⟨query, same', first, _⟩ := query.holds sized inverse written mails.ships
    exact ⟨query, same', first⟩
  cases emits with
  | announcement =>
      obtain ⟨_, _, _, _, _, _, _, _, _, same, _⟩ := query
      cases congrArg Packet.target same
  | passed d p packet passage passes =>
      obtain ⟨_, absent, _, passesOn⟩ := passage_cases passage
      obtain ⟨_, _, _, written, mails⟩ := passes
      obtain ⟨_, same, first⟩ := holds written mails
      cases same
      have nonempty : d.route ≠ [] := by
        intro empty
        rw [Wire.check, if_pos empty] at checked
        cases checked
      rw [Discovery.requester?, passesOn.route, keeps.id, List.head?_append_of_ne_nil _ nonempty] at first
      exact absurd (List.mem_of_head? first) absent
  | answer _ _ _ _ _ _ _ _ _ written mails | wrapped _ _ _ _ _ _ written mails =>
      obtain ⟨_, other, _⟩ := holds written mails
      cases other
  | walked a | flushed a => exact Or.inl ⟨a, rfl⟩
  | relayed m next bytes _ _ written => exact Or.inr ⟨m, next, bytes, rfl, written, rfl⟩

end

end ZoneRouting.Engine

import ZoneRouting.Proofs.Wire.Reading

set_option autoImplicit false

namespace ZoneRouting.Wire

def Counted : Datagram → Prop
  | .advertisement d => d.route.length < Bytes.capacity 8
  | .discovery d => d.route.length < Bytes.capacity 8 ∧ d.covered.length < Bytes.capacity 8
  | .acknowledgement d => d.route.length < Bytes.capacity 8
  | .failure _ => True
  | .message d => d.route.length < Bytes.capacity 8 ∧ d.payload.length < Bytes.capacity 8 ∧
      d.signature.length < Bytes.capacity 8

theorem map_reads {α β : Type} {reader : Reader α} {f : α → β} {bytes rest : Bytes} {a : α}
    (read : reader bytes = .ok (a, rest)) : (f <$> reader) bytes = .ok (f a, rest) := by
  change (reader bytes >>= fun taken => pure (f taken.1, taken.2)) = .ok (f a, rest)
  rw [read]
  rfl

theorem map_read {α β : Type} {reader : Reader α} {f : α → β} {bytes rest : Bytes} {b : β}
    (read : (f <$> reader) bytes = .ok (b, rest)) : ∃ a, reader bytes = .ok (a, rest) ∧ f a = b := by
  change (reader bytes >>= fun taken => pure (f taken.1, taken.2)) = .ok (b, rest) at read
  cases first : reader bytes with
  | error fault =>
      rw [first] at read
      cases read
  | ok taken =>
      rw [first] at read
      cases read
      exact ⟨taken.1, rfl, rfl⟩

theorem body_reads (d : Datagram) (rest : Bytes) (counted : Counted d) :
    Reader.body d.kind (body d ++ rest) = .ok (d, rest) := by
  cases d with
  | advertisement d =>
      apply map_reads
      rw [body, List.append_assoc, List.append_assoc, List.append_assoc, Reader.advertisement,
        bind_reads (identifier_exact.reads d.origin _ trivial), bind_reads (key_exact.reads d.key _ trivial),
        bind_reads (identifiers_exact.reads d.route _ counted), bind_reads (word_exact.reads d.interval _ trivial)]
      rfl
  | discovery d =>
      apply map_reads
      rw [body, List.append_assoc, List.append_assoc, List.append_assoc, List.append_assoc, Reader.discovery,
        bind_reads (key_exact.reads d.origin _ trivial), bind_reads (identifier_exact.reads d.destination _ trivial),
        bind_reads (word_exact.reads d.sent _ trivial), bind_reads (identifiers_exact.reads d.route _ counted.1),
        bind_reads (identifiers_exact.reads d.covered _ counted.2)]
      rfl
  | acknowledgement d =>
      apply map_reads
      rw [body, List.append_assoc, Reader.acknowledgement, bind_reads (identifiers_exact.reads d.route _ counted),
        bind_reads (key_exact.reads d.targetKey _ trivial)]
      rfl
  | failure d =>
      apply map_reads
      rw [body, List.append_assoc, List.append_assoc, Reader.failure,
        bind_reads (identifier_exact.reads d.origin _ trivial),
        bind_reads (identifier_exact.reads d.destination _ trivial), bind_reads (reason_exact.reads d.reason _ trivial)]
      rfl
  | message d =>
      apply map_reads
      rw [body, List.append_assoc, List.append_assoc, Reader.message,
        bind_reads (identifiers_exact.reads d.route _ counted.1), bind_reads (octets_exact.reads d.payload _ counted.2.1),
        bind_reads (octets_exact.reads d.signature _ counted.2.2)]
      rfl

theorem body_writes (kind : Kind) (bytes rest : Bytes) (d : Datagram)
    (read : Reader.body kind bytes = .ok (d, rest)) : bytes = body d ++ rest ∧ d.kind = kind := by
  cases kind with
  | advertisement =>
      obtain ⟨a, read, same⟩ := map_read read
      obtain ⟨origin, b₁, readOrigin, read⟩ := bind_read read
      obtain ⟨key, b₂, readKey, read⟩ := bind_read read
      obtain ⟨route, b₃, readRoute, read⟩ := bind_read read
      obtain ⟨interval, b₄, readInterval, read⟩ := bind_read read
      obtain ⟨value, last⟩ := pure_read read
      subst same value last
      refine ⟨?_, rfl⟩
      rw [(identifier_exact.writes _ _ _ readOrigin).1, (key_exact.writes _ _ _ readKey).1,
        (identifiers_exact.writes _ _ _ readRoute).1, (word_exact.writes _ _ _ readInterval).1]
      simp only [body, List.append_assoc]
  | discovery =>
      obtain ⟨a, read, same⟩ := map_read read
      obtain ⟨origin, b₁, readOrigin, read⟩ := bind_read read
      obtain ⟨destination, b₂, readDestination, read⟩ := bind_read read
      obtain ⟨sent, b₃, readSent, read⟩ := bind_read read
      obtain ⟨route, b₄, readRoute, read⟩ := bind_read read
      obtain ⟨covered, b₅, readCovered, read⟩ := bind_read read
      obtain ⟨value, last⟩ := pure_read read
      subst same value last
      refine ⟨?_, rfl⟩
      rw [(key_exact.writes _ _ _ readOrigin).1, (identifier_exact.writes _ _ _ readDestination).1,
        (word_exact.writes _ _ _ readSent).1, (identifiers_exact.writes _ _ _ readRoute).1,
        (identifiers_exact.writes _ _ _ readCovered).1]
      simp only [body, List.append_assoc]
  | acknowledgement =>
      obtain ⟨a, read, same⟩ := map_read read
      obtain ⟨route, b₁, readRoute, read⟩ := bind_read read
      obtain ⟨key, b₂, readKey, read⟩ := bind_read read
      obtain ⟨value, last⟩ := pure_read read
      subst same value last
      refine ⟨?_, rfl⟩
      rw [(identifiers_exact.writes _ _ _ readRoute).1, (key_exact.writes _ _ _ readKey).1]
      simp only [body, List.append_assoc]
  | failure =>
      obtain ⟨a, read, same⟩ := map_read read
      obtain ⟨origin, b₁, readOrigin, read⟩ := bind_read read
      obtain ⟨destination, b₂, readDestination, read⟩ := bind_read read
      obtain ⟨reason, b₃, readReason, read⟩ := bind_read read
      obtain ⟨value, last⟩ := pure_read read
      subst same value last
      refine ⟨?_, rfl⟩
      rw [(identifier_exact.writes _ _ _ readOrigin).1, (identifier_exact.writes _ _ _ readDestination).1,
        (reason_exact.writes _ _ _ readReason).1]
      simp only [body, List.append_assoc]
  | message =>
      obtain ⟨a, read, same⟩ := map_read read
      obtain ⟨route, b₁, readRoute, read⟩ := bind_read read
      obtain ⟨payload, b₂, readPayload, read⟩ := bind_read read
      obtain ⟨signature, b₃, readSignature, read⟩ := bind_read read
      obtain ⟨value, last⟩ := pure_read read
      subst same value last
      refine ⟨?_, rfl⟩
      rw [(identifiers_exact.writes _ _ _ readRoute).1, (octets_exact.writes _ _ _ readPayload).1,
        (octets_exact.writes _ _ _ readSignature).1]
      simp only [body, List.append_assoc]

theorem length_identifiers (ids : List Identifier) : (identifiers ids).length = 8 + 24 * ids.length := by
  have items : (ids.flatMap identifier).length = 24 * ids.length := by
    induction ids with
    | nil => rfl
    | cons id ids ih =>
        rw [List.flatMap_cons, List.length_append, ih, identifier, count, List.length_append, Bytes.length_of_nat_le,
          Identifier.length_to_bytes, List.length_cons]
        omega
  rw [identifiers, count, List.length_append, Bytes.length_of_nat_le, items]

theorem length_octets (bytes : Bytes) : (octets bytes).length = 8 + bytes.length := by
  rw [octets, count, List.length_append, Bytes.length_of_nat_le]

-- Counts are eight octets wide, and a body has far fewer elements than they can tell.
theorem counted_of_small (d : Datagram) (small : (body d).length ≤ maxBody) : Counted d := by
  have wide : maxBody < Bytes.capacity 8 := by decide
  cases d with
  | advertisement d =>
      simp only [body, List.length_append, length_identifiers] at small
      simp only [Counted]
      omega
  | discovery d =>
      simp only [body, List.length_append, length_identifiers] at small
      simp only [Counted]
      omega
  | acknowledgement d =>
      simp only [body, List.length_append, length_identifiers] at small
      simp only [Counted]
      omega
  | failure d => trivial
  | message d =>
      simp only [body, List.length_append, length_identifiers, length_octets] at small
      simp only [Counted]
      omega

theorem length_tag (kind : Kind) : kind.tag.length = 4 := by cases kind <;> rfl

theorem kind_tag_append (kind : Kind) (rest : Bytes) : Kind.ofBytes? (kind.tag ++ rest) = some kind := by
  have opening : (kind.tag ++ rest).take 4 = kind.tag := by rw [← length_tag kind, List.take_left]
  unfold Kind.ofBytes?
  rw [opening]
  cases kind <;> decide

theorem tag_of_kind {bytes : Bytes} {kind : Kind} (found : Kind.ofBytes? bytes = some kind) :
    bytes.take 4 = kind.tag := by
  have opening := List.find?_some found
  exact of_decide_eq_true opening

theorem encode_ok {d : Datagram} {bytes : Bytes} (written : encode d = .ok bytes) :
    (body d).length ≤ maxBody ∧ bytes = d.kind.tag ++ Bytes.ofNatBE 4 (body d).length ++ body d := by
  unfold encode at written
  dsimp only at written
  split at written
  · rename_i small
    cases written
    exact ⟨small, rfl⟩
  · cases written

theorem encode_small {d : Datagram} (small : (body d).length ≤ maxBody) :
    encode d = .ok (d.kind.tag ++ Bytes.ofNatBE 4 (body d).length ++ body d) :=
  if_pos small

theorem encode_large {d : Datagram} (large : maxBody < (body d).length) : encode d = .error (.tooLarge (body d).length) :=
  if_neg (Nat.not_le.mpr large)

theorem kind_encode {d : Datagram} {bytes : Bytes} (written : encode d = .ok bytes) :
    Kind.ofBytes? bytes = some d.kind := by
  rw [(encode_ok written).2, List.append_assoc]
  exact kind_tag_append d.kind _

theorem decode_encode {d : Datagram} {bytes : Bytes} (written : encode d = .ok bytes) :
    decode bytes = match check d with
      | .ok () => .ok d
      | .error fault => .error fault := by
  have tagged := kind_encode written
  obtain ⟨small, whole⟩ := encode_ok written
  have bound : (body d).length < Bytes.capacity 4 := Nat.lt_of_le_of_lt small (by decide)
  have content : bytes.drop headerLength = body d := by
    rw [whole]
    exact List.drop_left' (by simp [length_tag, headerLength])
  have middle : Bytes.toNatBE ((bytes.drop 4).take 4) = (body d).length := by
    rw [whole, List.append_assoc, List.drop_left' (length_tag d.kind), List.take_left' (Bytes.length_of_nat_be 4 _),
      Bytes.to_nat_be_of_nat_be, Nat.mod_eq_of_lt bound]
  have long : ¬ bytes.length < headerLength := by
    rw [whole, List.length_append, List.length_append, length_tag, Bytes.length_of_nat_be, headerLength]
    omega
  have read : (Reader.body d.kind).run (body d) = .ok (d, []) := by
    have front := body_reads d [] (counted_of_small d small)
    rw [List.append_nil] at front
    exact front
  have opened : decodeAs d.kind bytes = decodeBody d.kind (body d) := by
    rw [decodeAs, if_neg long, tagged]
    dsimp only
    rw [if_pos rfl, middle, content, if_neg (Nat.not_lt.mpr small), if_neg (not_not_intro rfl)]
  have whole : decode bytes = decodeBody d.kind (body d) := by
    rw [decode, tagged]
    exact opened
  rw [whole]
  cases checked : check d with
  | ok checked' => simp only [decodeBody, read, if_true, checked]
  | error fault => simp only [decodeBody, read, if_true, checked]

theorem measured_iff {kind : Kind} {content rest : Bytes} {d : Datagram}
    (read : Reader.body kind content = .ok (d, rest)) : (body d).length = content.length ↔ rest = [] := by
  rw [(body_writes kind content rest d read).1, List.length_append, ← List.length_eq_zero_iff]
  omega

theorem decode_body_ok {kind : Kind} {content : Bytes} {d : Datagram} (read : decodeBody kind content = .ok d) :
    content = body d ∧ d.kind = kind ∧ check d = .ok () := by
  unfold decodeBody at read
  cases found : (Reader.body kind).run content with
  | error fault =>
      rw [found] at read
      cases read
  | ok pair =>
      obtain ⟨value, rest⟩ := pair
      rw [found] at read
      dsimp only at read
      by_cases measured : (body value).length = content.length
      · rw [if_pos measured] at read
        have whole := (measured_iff found).mp measured
        obtain ⟨written, kinds⟩ := body_writes kind _ _ _ found
        cases checked : check value with
        | error fault =>
            rw [checked] at read
            cases read
        | ok _ =>
            rw [checked] at read
            cases read
            exact ⟨by rw [written, whole, List.append_nil], kinds, checked⟩
      · rw [if_neg measured] at read
        cases read

theorem decode_length {bytes : Bytes} {d : Datagram} (read : decode bytes = .ok d) :
    headerLength ≤ bytes.length ∧ (bytes.drop headerLength).length = Bytes.toNatBE ((bytes.drop 4).take 4) ∧
      Bytes.toNatBE ((bytes.drop 4).take 4) ≤ maxBody ∧ ∃ kind, Kind.ofBytes? bytes = some kind ∧
      decodeBody kind (bytes.drop headerLength) = .ok d := by
  unfold decode at read
  cases tagged : Kind.ofBytes? bytes with
  | none =>
      rw [tagged] at read
      cases read
  | some kind =>
      simp only [tagged, decodeAs, if_true] at read
      by_cases short : bytes.length < headerLength
      · rw [if_pos short] at read
        cases read
      · rw [if_neg short] at read
        by_cases large : Bytes.toNatBE ((bytes.drop 4).take 4) > maxBody
        · rw [if_pos large] at read
          cases read
        · rw [if_neg large] at read
          by_cases other : (bytes.drop headerLength).length ≠ Bytes.toNatBE ((bytes.drop 4).take 4)
          · rw [if_pos other] at read
            cases read
          · rw [if_neg other] at read
            exact ⟨Nat.not_lt.mp short, Classical.not_not.mp other, Nat.not_lt.mp large, kind, rfl, read⟩

theorem encode_of_decode {bytes : Bytes} {d : Datagram} (read : decode bytes = .ok d) :
    check d = .ok () ∧ encode d = .ok bytes := by
  obtain ⟨long, length, small, kind, tagged, content⟩ := decode_length read
  obtain ⟨written, kinds, checked⟩ := decode_body_ok content
  refine ⟨checked, ?_⟩
  have front : ((bytes.drop 4).take 4).length = 4 := by
    simp only [headerLength] at long
    simp only [List.length_take, List.length_drop]
    omega
  have middle : Bytes.ofNatBE 4 (body d).length = (bytes.drop 4).take 4 := by
    have back := Bytes.of_nat_be_to_nat_be ((bytes.drop 4).take 4)
    rwa [front, ← length, written] at back
  have within : (body d).length ≤ maxBody := by rwa [← written, length]
  rw [encode_small within, middle, kinds, ← tag_of_kind tagged, ← written, List.append_assoc]
  congr 1
  rw [headerLength, ← List.drop_drop (i := 4) (j := 4), List.take_append_drop, List.take_append_drop]

theorem decode_ok_iff (bytes : Bytes) (d : Datagram) :
    decode bytes = .ok d ↔ check d = .ok () ∧ encode d = .ok bytes := by
  constructor
  · exact encode_of_decode
  · rintro ⟨checked, written⟩
    rw [decode_encode written, checked]

theorem encode_decode_small {d : Datagram} (checked : check d = .ok ()) (small : (body d).length ≤ maxBody) :
    ∃ bytes, encode d = .ok bytes ∧ decode bytes = .ok d := by
  refine ⟨_, encode_small small, ?_⟩
  rw [decode_ok_iff]
  exact ⟨checked, encode_small small⟩

theorem encode_injective {d d' : Datagram} {bytes : Bytes} (first : encode d = .ok bytes)
    (second : encode d' = .ok bytes) : d = d' := by
  have kinds : d.kind = d'.kind := Option.some.inj ((kind_encode first).symm.trans (kind_encode second))
  obtain ⟨small, whole⟩ := encode_ok first
  obtain ⟨small', whole'⟩ := encode_ok second
  have header : ∀ d : Datagram, (d.kind.tag ++ Bytes.ofNatBE 4 (body d).length).length = 8 := fun d => by
    rw [List.length_append, length_tag, Bytes.length_of_nat_be]
  have contents : body d = body d' :=
    List.append_inj_right (whole.symm.trans whole') ((header d).trans (header d').symm)
  have read := body_reads d [] (counted_of_small d small)
  have read' := body_reads d' [] (counted_of_small d' small')
  rw [kinds, contents, read'] at read
  cases read
  rfl

theorem decode_no_extension {bytes extra : Bytes} {d d' : Datagram} (first : decode bytes = .ok d)
    (second : decode (bytes ++ extra) = .ok d') : extra = [] := by
  obtain ⟨long, length, _⟩ := decode_length first
  obtain ⟨_, length', _⟩ := decode_length second
  simp only [headerLength] at long length length'
  have header : ((bytes ++ extra).drop 4).take 4 = (bytes.drop 4).take 4 := by
    rw [List.drop_append_of_le_length (by omega), List.take_append_of_le_length (by rw [List.length_drop]; omega)]
  rw [header, ← length, List.length_drop, List.length_drop, List.length_append] at length'
  apply List.length_eq_zero_iff.mp
  omega

theorem canonical_format :
    (∀ bytes d, decode bytes = .ok d ↔ check d = .ok () ∧ encode d = .ok bytes) ∧
    (∀ d, check d = .ok () → (body d).length ≤ maxBody → ∃ bytes, encode d = .ok bytes ∧ decode bytes = .ok d) ∧
    (∀ bytes d, decode bytes = .ok d → encode d = .ok bytes) ∧
    (∀ bytes extra d d', decode bytes = .ok d → decode (bytes ++ extra) = .ok d' → extra = []) :=
  ⟨decode_ok_iff, fun _ checked small => encode_decode_small checked small,
    fun _ _ read => (encode_of_decode read).2, fun _ _ _ _ first second => decode_no_extension first second⟩

theorem canonical_format_discovery :
    ∃ bytes, encode (.discovery
        { origin := default, destination := ⟨⟨9⟩⟩, sent := 1234, route := [⟨⟨4⟩⟩, ⟨⟨5⟩⟩], covered := [⟨⟨4⟩⟩, ⟨⟨6⟩⟩] }) =
        .ok bytes ∧
      decode bytes = .ok (.discovery
        { origin := default, destination := ⟨⟨9⟩⟩, sent := 1234, route := [⟨⟨4⟩⟩, ⟨⟨5⟩⟩], covered := [⟨⟨4⟩⟩, ⟨⟨6⟩⟩] }) :=
  canonical_format.2.1 _ rfl (by decide +kernel)

end ZoneRouting.Wire

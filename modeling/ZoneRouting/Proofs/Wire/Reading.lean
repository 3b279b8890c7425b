import ZoneRouting.Wire.Frame

set_option autoImplicit false

namespace ZoneRouting.Wire

-- A reader and a writer of one type belong together: reading takes a written value off the front
-- of any octets, and whatever reading takes off is what writing its value gives.
structure Exact {α : Type} (reader : Reader α) (write : α → Bytes) (fits : α → Prop) : Prop where
  reads : ∀ a rest, fits a → reader (write a ++ rest) = .ok (a, rest)
  writes : ∀ bytes a rest, reader bytes = .ok (a, rest) → bytes = write a ++ rest ∧ fits a

theorem bind_reads {α β : Type} {reader : Reader α} {next : α → Reader β} {bytes rest : Bytes} {a : α}
    (read : reader bytes = .ok (a, rest)) : (reader >>= next) bytes = next a rest := by
  change (reader bytes >>= fun taken => next taken.1 taken.2) = next a rest
  rw [read]
  rfl

theorem bind_read {α β : Type} {reader : Reader α} {next : α → Reader β} {bytes rest : Bytes} {b : β}
    (read : (reader >>= next) bytes = .ok (b, rest)) :
    ∃ a mid, reader bytes = .ok (a, mid) ∧ next a mid = .ok (b, rest) := by
  change (reader bytes >>= fun taken => next taken.1 taken.2) = .ok (b, rest) at read
  cases first : reader bytes with
  | error fault =>
      rw [first] at read
      cases read
  | ok taken =>
      rw [first] at read
      exact ⟨taken.1, taken.2, rfl, read⟩

theorem pure_read {α : Type} {a b : α} {bytes rest : Bytes}
    (read : (pure a : Reader α) bytes = .ok (b, rest)) : a = b ∧ bytes = rest := by
  cases read
  exact ⟨rfl, rfl⟩

theorem split_exact_append (taken rest : Bytes) :
    Bytes.splitExact? taken.length (taken ++ rest) = some (taken, rest) := by
  induction taken with
  | nil => rfl
  | cons b taken ih => simp [Bytes.splitExact?, ih]

theorem split_exact_some {n : Nat} {bytes taken rest : Bytes}
    (split : Bytes.splitExact? n bytes = some (taken, rest)) :
    bytes = taken ++ rest ∧ taken.length = n := by
  induction n generalizing bytes taken with
  | zero =>
      cases split
      exact ⟨rfl, rfl⟩
  | succ n ih =>
      cases bytes with
      | nil => cases split
      | cons b bytes =>
          obtain ⟨⟨front, back⟩, found, same⟩ := Option.map_eq_some_iff.mp split
          cases same
          obtain ⟨whole, length⟩ := ih found
          exact ⟨by rw [whole]; rfl, by rw [List.length_cons, length]⟩

theorem take_exact (n : Nat) (fault : BodyFault) :
    Exact (Reader.take n fault) id fun taken => taken.length = n := by
  constructor
  · intro taken rest length
    subst length
    simp only [Reader.take, id_eq, split_exact_append]
  · intro bytes taken rest read
    unfold Reader.take at read
    cases split : Bytes.splitExact? n bytes with
    | none =>
        rw [split] at read
        cases read
    | some pair =>
        rw [split] at read
        cases read
        exact split_exact_some split

theorem number_exact (width : Nat) :
    Exact (Reader.number width) (Bytes.ofNatLE width) fun n => n < Bytes.capacity width := by
  constructor
  · intro n rest small
    have taken := (take_exact width .endOfInput).reads (Bytes.ofNatLE width n) rest (Bytes.length_of_nat_le width n)
    rw [Reader.number]
    rw [id_eq] at taken
    rw [bind_reads taken, Bytes.to_nat_le_of_nat_le, Nat.mod_eq_of_lt small]
    rfl
  · intro bytes n rest read
    obtain ⟨taken, mid, first, last⟩ := bind_read read
    obtain ⟨value, same⟩ := pure_read last
    obtain ⟨whole, length⟩ := (take_exact width .endOfInput).writes bytes taken mid first
    subst length value same
    exact ⟨by rw [Bytes.of_nat_le_to_nat_le]; exact whole, Bytes.to_nat_le_lt taken⟩

theorem word_small (w : UInt64) : w.toNat < Bytes.capacity 8 := w.toNat_lt

theorem word_exact : Exact Reader.word word fun _ => True := by
  constructor
  · intro w rest _
    rw [Reader.word, word, bind_reads ((number_exact 8).reads w.toNat rest (word_small w)), UInt64.ofNat_toNat]
    rfl
  · intro bytes w rest read
    obtain ⟨n, mid, first, last⟩ := bind_read read
    obtain ⟨value, same⟩ := pure_read last
    obtain ⟨whole, small⟩ := (number_exact 8).writes bytes n mid first
    subst value same
    refine ⟨?_, trivial⟩
    rw [word, UInt64.toNat_ofNat_of_lt' small]
    exact whole

theorem identifier_exact : Exact Reader.identifier identifier fun _ => True := by
  constructor
  · intro id rest _
    have length := (number_exact 8).reads 16 (id.toBytes ++ rest) (by decide)
    have taken := (take_exact 16 .identifierCut).reads id.toBytes rest (Identifier.length_to_bytes id)
    rw [id_eq] at taken
    rw [identifier, count, List.append_assoc, Reader.identifier, bind_reads length, bind_reads taken,
      if_pos rfl, Identifier.of_bytes_to_bytes]
    rfl
  · intro bytes id rest read
    obtain ⟨length, mid, first, read⟩ := bind_read read
    obtain ⟨taken, back, second, read⟩ := bind_read read
    by_cases sixteen : length = 16
    · rw [if_pos sixteen] at read
      obtain ⟨value, same⟩ := pure_read read
      obtain ⟨whole, _⟩ := (number_exact 8).writes bytes length mid first
      obtain ⟨middle, octets⟩ := (take_exact length .identifierCut).writes mid taken back second
      subst value same
      rw [identifier, count, Identifier.to_bytes_of_bytes (octets.trans sixteen), whole, middle, sixteen, id_eq,
        List.append_assoc]
      exact ⟨rfl, trivial⟩
    · rw [if_neg sixteen] at read
      cases read

theorem many_exact {α : Type} {item : Reader α} {write : α → Bytes} (exact : Exact item write fun _ => True)
    (n : Nat) : Exact (Reader.many item n) (fun l => l.flatMap write) fun l => l.length = n := by
  induction n with
  | zero =>
      constructor
      · intro l rest empty
        rw [List.length_eq_zero_iff.mp empty]
        rfl
      · intro bytes l rest read
        obtain ⟨value, same⟩ := pure_read read
        subst value same
        exact ⟨rfl, rfl⟩
  | succ n ih =>
      constructor
      · intro l rest length
        cases l with
        | nil => cases length
        | cons a l =>
            have first := exact.reads a (l.flatMap write ++ rest) trivial
            have more := ih.reads l rest (Nat.succ.inj length)
            rw [List.flatMap_cons, List.append_assoc, Reader.many, bind_reads first, bind_reads more]
            rfl
      · intro bytes l rest read
        obtain ⟨a, mid, first, read⟩ := bind_read read
        obtain ⟨tail, back, second, read⟩ := bind_read read
        obtain ⟨value, same⟩ := pure_read read
        obtain ⟨whole, _⟩ := exact.writes bytes a mid first
        obtain ⟨middle, length⟩ := ih.writes mid tail back second
        subst value same
        refine ⟨?_, congrArg Nat.succ length⟩
        rw [whole, middle]
        simp only [List.flatMap_cons, List.append_assoc]

theorem identifiers_exact :
    Exact Reader.identifiers identifiers fun ids => ids.length < Bytes.capacity 8 := by
  constructor
  · intro ids rest small
    have length := (number_exact 8).reads ids.length (ids.flatMap identifier ++ rest) small
    have items := (many_exact identifier_exact ids.length).reads ids rest rfl
    rw [identifiers, count, List.append_assoc, Reader.identifiers, bind_reads length]
    exact items
  · intro bytes ids rest read
    obtain ⟨n, mid, first, read⟩ := bind_read read
    obtain ⟨whole, small⟩ := (number_exact 8).writes bytes n mid first
    obtain ⟨middle, length⟩ := (many_exact identifier_exact n).writes mid ids rest read
    subst length
    exact ⟨by rw [whole, middle, identifiers, count, List.append_assoc], small⟩

theorem octets_exact : Exact Reader.octets octets fun bytes => bytes.length < Bytes.capacity 8 := by
  constructor
  · intro content rest small
    have length := (number_exact 8).reads content.length (content ++ rest) small
    rw [octets, count, List.append_assoc, Reader.octets, bind_reads length]
    exact (take_exact content.length .endOfInput).reads content rest rfl
  · intro bytes content rest read
    obtain ⟨n, mid, first, read⟩ := bind_read read
    obtain ⟨whole, small⟩ := (number_exact 8).writes bytes n mid first
    obtain ⟨middle, length⟩ := (take_exact n .endOfInput).writes mid content rest read
    subst length
    exact ⟨by rw [whole, middle, octets, count, List.append_assoc, id_eq], small⟩

theorem key_exact : Exact Reader.key PublicKey.toBytes fun _ => True := by
  constructor
  · intro key rest _
    have signing := (take_exact 32 .endOfInput).reads key.signing.toBytes (key.exchange.toBytes ++ rest)
      (Octets.length_to_bytes _)
    have exchange := (take_exact 32 .endOfInput).reads key.exchange.toBytes rest (Octets.length_to_bytes _)
    rw [id_eq] at signing exchange
    rw [PublicKey.toBytes, List.append_assoc, Reader.key, bind_reads signing, bind_reads exchange,
      Octets.of_bytes_to_bytes, Octets.of_bytes_to_bytes]
    rfl
  · intro bytes key rest read
    obtain ⟨signing, mid, first, read⟩ := bind_read read
    obtain ⟨exchange, back, second, read⟩ := bind_read read
    obtain ⟨value, same⟩ := pure_read read
    obtain ⟨whole, signingLength⟩ := (take_exact 32 .endOfInput).writes bytes signing mid first
    obtain ⟨middle, exchangeLength⟩ := (take_exact 32 .endOfInput).writes mid exchange back second
    subst value same
    refine ⟨?_, trivial⟩
    rw [PublicKey.toBytes, Octets.to_bytes_of_bytes signingLength, Octets.to_bytes_of_bytes exchangeLength,
      whole, middle, id_eq, id_eq, List.append_assoc]

theorem reason_exact :
    Exact Reader.reason (fun reason => Bytes.ofNatLE 4 (reasonIndex reason)) fun _ => True := by
  constructor
  · intro reason rest _
    have index := (number_exact 4).reads (reasonIndex reason) rest (by cases reason <;> decide)
    rw [Reader.reason, bind_reads index]
    cases reason <;> rfl
  · intro bytes reason rest read
    obtain ⟨n, mid, first, read⟩ := bind_read read
    obtain ⟨whole, _⟩ := (number_exact 4).writes bytes n mid first
    match n, whole, read with
    | 0, whole, read =>
        obtain ⟨value, same⟩ := pure_read read
        subst value same
        exact ⟨whole, trivial⟩
    | 1, whole, read =>
        obtain ⟨value, same⟩ := pure_read read
        subst value same
        exact ⟨whole, trivial⟩
    | n + 2, _, read => cases read

end ZoneRouting.Wire

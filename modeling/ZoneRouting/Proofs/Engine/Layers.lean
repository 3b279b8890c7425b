import ZoneRouting.Proofs.Engine.RecordedKeys

set_option autoImplicit false

namespace ZoneRouting.Engine

-- The outer octets are a message for this device, from one whose key is recorded, and open to the inner ones.
def Unseals (S : Suite) (e : Engine) (outer inner : Bytes) : Prop :=
  ∃ m sender key, Wire.decode outer = .ok (.message m) ∧ Route.LoopFree m.route ∧ m.recipient? = some e.id ∧
    m.sender? = some sender ∧ e.keyring.find? sender = some key ∧ m.unwrap S e.identity.keys key = .ok inner

inductive Layers (S : Suite) (e : Engine) : Nat → Bytes → Bytes → Prop
  | bare (core : Bytes) : Layers S e 0 core core
  | within {layers : Nat} {outer inner core : Bytes} (unseals : e.Unseals S outer inner)
      (rest : Layers S e layers inner core) : Layers S e (layers + 1) outer core

def Bare (S : Suite) (e : Engine) (core : Bytes) : Prop := ∀ inner, ¬ e.Unseals S core inner

variable {S : Suite} {now : UInt64} {e : Engine} {layers layers' n : Nat} {bytes core core' outer inner inner' : Bytes}
  {d : Datagram}

theorem unseals_iff : e.Unseals S outer inner ↔ ∃ d, Wire.decode outer = .ok d ∧ e.unwrap? S d = some inner := by
  constructor
  · rintro ⟨m, sender, key, read, rest⟩
    exact ⟨.message m, read, unwrap_some_iff.mpr ⟨m, sender, key, rfl, rest⟩⟩
  · rintro ⟨d, read, opened⟩
    obtain ⟨m, sender, key, rfl, rest⟩ := unwrap_some_iff.mp opened
    exact ⟨m, sender, key, read, rest⟩

theorem Unseals.shorter (unseals : e.Unseals S outer inner) : inner.length < outer.length := by
  obtain ⟨m, sender, key, read, _, _, _, _, opened⟩ := unseals
  exact Message.length_unwrap opened (Wire.encode_of_decode read).2

theorem Unseals.unique (unseals : e.Unseals S outer inner) (unseals' : e.Unseals S outer inner') : inner = inner' := by
  obtain ⟨d, read, opened⟩ := unseals_iff.mp unseals
  obtain ⟨d', read', opened'⟩ := unseals_iff.mp unseals'
  cases read.symm.trans read'
  exact Option.some.inj (opened.symm.trans opened')

theorem Layers.shorter (nested : e.Layers S layers bytes core) : layers + core.length ≤ bytes.length := by
  induction nested with
  | bare core => exact Nat.le_of_eq (Nat.zero_add _)
  | within unseals _ ih =>
      have first := unseals.shorter
      omega

-- Unsealing comes to an end, because the content of a message is shorter than the message.
theorem exists_core (S : Suite) (e : Engine) (bytes : Bytes) : ∃ layers core, e.Layers S layers bytes core ∧ e.Bare S core := by
  by_cases bare : e.Bare S bytes
  · exact ⟨0, bytes, .bare bytes, bare⟩
  · obtain ⟨inner, unseals⟩ := not_forall_not.mp bare
    have shorter := unseals.shorter
    obtain ⟨layers, core, nested, bare⟩ := exists_core S e inner
    exact ⟨layers + 1, core, .within unseals nested, bare⟩
termination_by bytes.length

theorem Layers.part (nested : e.Layers S layers bytes core) (bare : e.Bare S core) (nested' : e.Layers S layers' bytes core') :
    ∃ rest, layers = layers' + rest ∧ e.Layers S rest core' core := by
  induction nested' generalizing layers with
  | bare _ => exact ⟨layers, (Nat.zero_add _).symm, nested⟩
  | within unseals' _ ih =>
      cases nested with
      | bare _ => exact absurd unseals' (bare _)
      | within unseals nested =>
          cases unseals.unique unseals'
          obtain ⟨rest, rfl, left⟩ := ih nested
          exact ⟨rest, Nat.add_right_comm .., left⟩

theorem Layers.innermost (nested : e.Layers S layers bytes core) (n : Nat) :
    e.innermost? S (n + layers) bytes = e.innermost? S n core := by
  induction nested with
  | bare _ => rfl
  | within unseals _ ih =>
      obtain ⟨d, read, opened⟩ := unseals_iff.mp unseals
      rw [← Nat.add_assoc, innermost_read S e read, opened]
      exact ih

theorem Layers.deep (nested : e.Layers S layers bytes core) (deep : n ≤ layers) : e.innermost? S n bytes = none := by
  induction nested generalizing n with
  | bare _ =>
      cases Nat.le_zero.mp deep
      rfl
  | within unseals _ ih =>
      cases n with
      | zero => rfl
      | succ n =>
          obtain ⟨d, read, opened⟩ := unseals_iff.mp unseals
          rw [innermost_read S e read, opened]
          exact ih (Nat.le_of_succ_le_succ deep)

theorem Bare.innermost (bare : e.Bare S core) (n : Nat) :
    e.innermost? S (n + 1) core = match Kind.ofBytes? core with
      | none => some (.payload core)
      | some _ => (Wire.decode core).toOption.map Content.datagram := by
  rw [innermost?]
  cases Kind.ofBytes? core with
  | none => rfl
  | some kind =>
      dsimp only
      cases read : Wire.decode core with
      | error fault => rfl
      | ok d =>
          have closed : e.unwrap? S d = none :=
            Option.eq_none_iff_forall_ne_some.mpr fun inner opened => bare inner (unseals_iff.mpr ⟨d, read, opened⟩)
          dsimp only
          rw [closed]
          rfl

theorem Layers.content (nested : e.Layers S layers bytes core) (bare : e.Bare S core) :
    e.content? S bytes = if layers ≤ e.settings.maxNestingDepth then e.content? S core else none := by
  unfold content?
  split
  · rename_i within
    obtain ⟨depth, depth_eq⟩ := Nat.exists_eq_add_of_le' within
    rw [depth_eq, Nat.add_right_comm, nested.innermost, Nat.add_right_comm, bare.innermost, bare.innermost]
  · rename_i deep
    exact nested.deep (Nat.succ_le_of_lt (Nat.lt_of_not_le deep))

theorem Calm.incoming {e' : Engine} (calm : e.Calm now e') : e'.incoming = e.incoming := calm.settles.incoming

theorem handle_incoming (S : Suite) (now : UInt64) (d : Datagram) (e : Engine) : (e.handle S now d).2.incoming = e.incoming := by
  cases d with
  | advertisement a =>
      rcases advertisement_cases now a e with dropped | ⟨_, _, _, learned⟩
      · rw [handle, dropped]
      · rw [handle, learned]
  | discovery d =>
      rcases discovery_cases S now d e with settles | ⟨_, _, _, _, _, settles⟩
      · exact settles.incoming
      · exact settles.incoming
  | acknowledgement a =>
      rcases acknowledgement_cases S now a e with ⟨target, _, _, taken⟩ | ⟨previous, _, passed⟩ | dropped
      · rw [handle, taken]
        exact (route_all_calm now target (e.parkedFor target) _).incoming
      · rw [handle, passed]
        exact (sent_settles (forward_settles S now previous _ e)).incoming
      · rw [handle, dropped]
  | failure _ => rfl
  | message m => exact (handle_message_settles S now m e).incoming

theorem receive_incoming (S : Suite) (now : UInt64) (bytes : Bytes) (e : Engine) :
    (e.receive S now bytes).2.incoming = match e.content? S bytes with
      | some (.payload payload) => e.incoming ++ [payload]
      | _ => e.incoming := by
  rw [receive_content]
  rcases e.content? S bytes with _ | payload | d
  · rfl
  · rfl
  · exact handle_incoming S now d e

theorem layers_peel (S : Suite) (e : Engine) (bytes : Bytes) :
    (∀ outer inner, e.Unseals S outer inner → inner.length < outer.length) ∧
    ∃ layers core, e.Layers S layers bytes core ∧ e.Bare S core ∧
      (∀ layers' core', e.Layers S layers' bytes core' → ∃ rest, layers = layers' + rest ∧ e.Layers S rest core' core) ∧
      layers + core.length ≤ bytes.length ∧
      ∀ now,
        e.receive S now bytes = (if layers ≤ e.settings.maxNestingDepth then e.receive S now core else ([], e)) ∧
        (e.receive S now bytes).2.incoming =
          if layers ≤ e.settings.maxNestingDepth ∧ Kind.ofBytes? core = none then e.incoming ++ [core] else e.incoming := by
  obtain ⟨layers, core, nested, bare⟩ := exists_core S e bytes
  refine ⟨fun _ _ unseals => unseals.shorter, layers, core, nested, bare, fun _ _ => nested.part bare, nested.shorter,
    fun now => ?_⟩
  rw [receive_incoming, receive_content, nested.content bare]
  by_cases within : layers ≤ e.settings.maxNestingDepth
  · rw [if_pos within, if_pos within, receive_content, content?, bare.innermost]
    refine ⟨rfl, ?_⟩
    cases Kind.ofBytes? core with
    | none => rw [if_pos ⟨within, rfl⟩]
    | some kind =>
        rw [if_neg fun both => Option.some_ne_none kind both.2]
        dsimp only
        cases (Wire.decode core).toOption <;> rfl
  · rw [if_neg within, if_neg within, if_neg fun both => within both.1]
    exact ⟨rfl, rfl⟩

end ZoneRouting.Engine

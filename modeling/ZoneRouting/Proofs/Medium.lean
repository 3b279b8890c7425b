import Mathlib.Data.Sym.Sym2
import ZoneRouting.Medium

set_option autoImplicit false

namespace ZoneRouting

namespace Links

variable {α : Type} [DecidableEq α] {links : Links α}

theorem mem_join {a b c d : α} : (c, d) ∈ links.join a b ↔ s(a, b) = s(c, d) ∨ (c, d) ∈ links := by
  rw [join, mem_enter, mem_enter, Sym2.eq_iff, Prod.mk.injEq, Prod.mk.injEq]
  grind

theorem mem_cut {a b c d : α} : (c, d) ∈ links.cut a b ↔ s(a, b) ≠ s(c, d) ∧ (c, d) ∈ links := by
  rw [cut, List.mem_filter, decide_eq_true_eq, ne_eq, ne_eq, ne_eq, Sym2.eq_iff, Prod.mk.injEq, Prod.mk.injEq]
  grind

theorem nodup_enter (nodup : links.Nodup) (pair : α × α) : (links.enter pair).Nodup := by
  unfold enter
  split
  · exact nodup
  · rename_i new
    exact List.nodup_append.mpr ⟨nodup, List.nodup_singleton pair, by simp only [List.mem_singleton]; grind⟩

theorem nodup_join (nodup : links.Nodup) (a b : α) : (links.join a b).Nodup := nodup_enter (nodup_enter nodup _) _

theorem nodup_cut (nodup : links.Nodup) (a b : α) : (links.cut a b).Nodup := nodup.filter _

theorem mem_neighbours {a b : α} : b ∈ links.neighbours a ↔ (a, b) ∈ links := by
  simp [neighbours]

theorem nodup_neighbours (nodup : links.Nodup) (a : α) : (links.neighbours a).Nodup := by
  refine (nodup.filter _).map_on fun l member l' member' same => ?_
  have from_a := of_decide_eq_true (List.mem_filter.mp member).2
  have from_a' := of_decide_eq_true (List.mem_filter.mp member').2
  exact Prod.ext (from_a.trans from_a'.symm) same

end Links

namespace Medium

inductive Use where
  | attach (id : Identifier)
  | link (a b : Identifier)
  | unlink (a b : Identifier)
  | send (t : Nat) (packet : Packet)
  | receive (t : Nat)
  | close (t : Nat)

def use (m : Medium) : Use → Medium
  | .attach id => (m.attach id).2
  | .link a b => { m with links := m.links.join a b }
  | .unlink a b => { m with links := m.links.cut a b }
  | .send t packet => m.send t packet
  | .receive t => (m.receive t).2
  | .close t => m.close t

-- The medium after it has been used. Uses are listed with the latest first.
def after : List Use → Medium
  | [] => empty
  | u :: past => (after past).use u

def waiting (m : Medium) (t : Nat) : List Bytes := ((m.radios[t]?).map Radio.waiting).getD []

def handed (t : Nat) : List Use → List Bytes
  | [] => []
  | .receive s :: past => handed t past ++ if s = t then ((after past).receive s).1.toOption.join.toList else []
  | _ :: past => handed t past

def received (t : Nat) (past : List Use) : List Bytes := handed t past ++ (after past).waiting t

def names : List Use → List Identifier
  | [] => []
  | .attach id :: past => names past ++ [id]
  | _ :: past => names past

def linked (pair : Sym2 Identifier) : List Use → Bool
  | [] => false
  | .link a b :: past => s(a, b) = pair || linked pair past
  | .unlink a b :: past => s(a, b) ≠ pair && linked pair past
  | _ :: past => linked pair past

-- Whether a radio takes part in what is sent: from when it is attached until another one is attached under its identifier or
-- a radio is closed that takes it off the air.
def onAir (closes : List Identifier → Nat → Nat → Bool) (t : Nat) : List Use → Bool
  | [] => false
  | .attach id :: past => t = (names past).length || onAir closes t past && (names past)[t]? ≠ some id
  | .close s :: past => onAir closes t past && !closes (names past) s t
  | _ :: past => onAir closes t past

def inReach (past : List Use) (s t : Nat) (packet : Packet) : Bool :=
  match (names past)[s]?, (names past)[t]? with
  | some sender, some receiver =>
      linked s(sender, receiver) past && (packet.target = .broadcast || packet.target = .single receiver)
  | _, _ => false

def sentTo (closes : List Identifier → Nat → Nat → Bool) (t : Nat) : List Use → List Bytes
  | [] => []
  | .send s packet :: past =>
      sentTo closes t past ++ if onAir closes t past && inReach past s t packet then [packet.payload] else []
  | _ :: past => sentTo closes t past

-- A radio takes itself off the air; or whichever is there under its identifier.
def itself (_ : List Identifier) (s t : Nat) : Bool := s = t

def namesake (names : List Identifier) (s t : Nat) : Bool := names[s]? = names[t]?

def evicted (t : Nat) : List Use → Bool
  | [] => false
  | .close s :: past => evicted t past || onAir itself t past && s ≠ t && namesake (names past) s t
  | _ :: past => evicted t past

variable {m m' m'' : Medium} {past : List Use} {id : Identifier} {t : Nat}

-- A medium that differs in nothing but what its radios have heard.
structure Alike (m m' : Medium) : Prop where
  ids : m'.radios.map Radio.id = m.radios.map Radio.id
  listening : m'.listening = m.listening
  links : m'.links = m.links

theorem alike_refl (m : Medium) : m.Alike m := ⟨rfl, rfl, rfl⟩

theorem Alike.trans (alike : m.Alike m') (alike' : m'.Alike m'') : m.Alike m'' :=
  ⟨alike'.ids.trans alike.ids, alike'.listening.trans alike.listening, alike'.links.trans alike.links⟩

theorem deliver_alike (id : Identifier) (payload : Bytes) (m : Medium) : m.Alike (m.deliver id payload) := by
  unfold deliver
  split
  · exact alike_refl m
  · refine ⟨List.ext_getElem? fun t => ?_, rfl, rfl⟩
    rw [List.getElem?_map, List.getElem?_map, List.getElem?_modify]
    cases m.radios[t]? with
    | none => rfl
    | some radio => exact congrArg some (apply_ite Radio.id _ _ _ |>.trans (ite_self _))

theorem deliver_all_alike (payload : Bytes) (ids : List Identifier) (m : Medium) :
    m.Alike (ids.foldl (fun m id => m.deliver id payload) m) := by
  induction ids generalizing m with
  | nil => exact alike_refl m
  | cons id ids ih => exact (deliver_alike id payload m).trans (ih _)

theorem send_alike (t : Nat) (packet : Packet) (m : Medium) : m.Alike (m.send t packet) := by
  unfold send
  split
  · exact alike_refl m
  · exact deliver_all_alike _ _ m

theorem receive_alike (t : Nat) (m : Medium) : m.Alike (m.receive t).2 := by
  unfold receive
  split
  · exact alike_refl m
  · rename_i radio found
    split
    · refine ⟨List.ext_getElem? fun s => ?_, rfl, rfl⟩
      rw [List.getElem?_map, List.getElem?_map]
      by_cases same : t = s
      · subst same
        obtain ⟨inside, _⟩ := List.getElem?_eq_some_iff.mp found
        rw [List.getElem?_set_self inside, found]
        rfl
      · rw [List.getElem?_set_ne same]
    · split <;> exact alike_refl m

def Named (m : Medium) : Prop := ∀ id t, m.listening.find? id = some t → (m.radios.map Radio.id)[t]? = some id

theorem Named.alike (named : m.Named) (alike : m.Alike m') : m'.Named := by
  unfold Named
  rw [alike.ids, alike.listening]
  exact named

theorem waiting_deliver (named : m.Named) (id : Identifier) (payload : Bytes) (t : Nat) :
    (m.deliver id payload).waiting t = m.waiting t ++ if m.listening.find? id = some t then [payload] else [] := by
  unfold deliver waiting
  cases found : m.listening.find? id with
  | none => rw [if_neg nofun, List.append_nil]
  | some s =>
      dsimp only
      by_cases same : s = t
      · subst same
        have here := named id s found
        rw [List.getElem?_map] at here
        obtain ⟨radio, stored, _⟩ := Option.map_eq_some_iff.mp here
        rw [List.getElem?_modify_eq, if_pos rfl, stored]
        rfl
      · rw [List.getElem?_modify_ne _ _ same, if_neg fun both => same (Option.some.inj both), List.append_nil]

-- Nobody listens under two identifiers, so that a radio hears a payload once even if it goes to many.
theorem waiting_deliver_all (named : m.Named) (payload : Bytes) {ids : List Identifier} (nodup : ids.Nodup) (t : Nat) :
    (ids.foldl (fun m id => m.deliver id payload) m).waiting t =
      m.waiting t ++ if ∃ id ∈ ids, m.listening.find? id = some t then [payload] else [] := by
  induction ids generalizing m with
  | nil => simp
  | cons id ids ih =>
      obtain ⟨absent, nodup⟩ := List.nodup_cons.mp nodup
      have alike := deliver_alike id payload m
      rw [List.foldl_cons, ih (named.alike alike) nodup, waiting_deliver named, alike.listening, List.append_assoc]
      congr 1
      by_cases here : m.listening.find? id = some t
      · have single : ¬ ∃ id' ∈ ids, m.listening.find? id' = some t := by
          rintro ⟨id', member, there⟩
          cases (named id t here).symm.trans (named id' t there)
          exact absent member
        rw [if_pos here, if_neg single, if_pos ⟨id, List.mem_cons_self, here⟩]
        rfl
      · rw [if_neg here, List.nil_append]
        congr 1
        simp [here]

theorem mem_hearers {sender : Identifier} {packet : Packet} :
    id ∈ m.hearers sender packet ↔
      (sender, id) ∈ m.links ∧ (packet.target = .broadcast ∨ packet.target = .single id) := by
  unfold hearers
  cases packet.target with
  | broadcast => simp [Links.mem_neighbours]
  | single receiver =>
      by_cases linked : (sender, receiver) ∈ m.links <;> simp [Links.hears, linked] <;> grind

theorem nodup_hearers (nodup : m.links.Nodup) (sender : Identifier) (packet : Packet) : (m.hearers sender packet).Nodup := by
  unfold hearers
  split
  · split
    · exact List.nodup_singleton _
    · exact List.nodup_nil
  · exact Links.nodup_neighbours nodup sender

theorem waiting_receive (s t : Nat) (m : Medium) :
    m.waiting t = (if s = t then (m.receive s).1.toOption.join.toList else []) ++ (m.receive s).2.waiting t := by
  unfold receive
  cases found : m.radios[s]? with
  | none => simp [Except.toOption]
  | some radio =>
      obtain ⟨id, heard⟩ := radio
      cases heard with
      | nil => by_cases listens : m.Listens s <;> simp [listens, Except.toOption]
      | cons bytes rest =>
          obtain ⟨inside, _⟩ := List.getElem?_eq_some_iff.mp found
          by_cases same : s = t
          · subst same
            rw [waiting, waiting, found, List.getElem?_set_self inside, if_pos rfl]
            rfl
          · simp [waiting, List.getElem?_set_ne same, same]

theorem waiting_attach (id : Identifier) (t : Nat) (m : Medium) : (m.attach id).2.waiting t = m.waiting t := by
  unfold attach waiting
  dsimp only
  rw [List.getElem?_append]
  split
  · rfl
  · rename_i outside
    rw [List.getElem?_eq_none (Nat.le_of_not_lt outside), List.getElem?_singleton]
    split <;> rfl

theorem waiting_close (s t : Nat) (m : Medium) : (m.close s).waiting t = m.waiting t := by
  unfold close
  split <;> rfl

theorem names_attach (earlier : t ≠ (names past).length) : (names past ++ [id])[t]? = (names past)[t]? := by
  rcases Nat.lt_or_gt_of_ne earlier with inside | outside
  · exact List.getElem?_append_left inside
  · rw [List.getElem?_eq_none (Nat.le_of_lt outside), List.getElem?_eq_none]
    rwa [List.length_append]

structure Recorded (past : List Use) (m : Medium) : Prop where
  ids : m.radios.map Radio.id = names past
  nodup : m.links.Nodup
  links : ∀ a b, (a, b) ∈ m.links ↔ linked s(a, b) past
  listening : ∀ id t, m.listening.find? id = some t ↔ (names past)[t]? = some id ∧ onAir namesake t past

theorem Recorded.alike (recorded : Recorded past m) (alike : m.Alike m') : Recorded past m' :=
  ⟨alike.ids.trans recorded.ids, alike.links ▸ recorded.nodup, alike.links ▸ recorded.links,
    alike.listening ▸ recorded.listening⟩

theorem Recorded.named (recorded : Recorded past m) : m.Named := by
  intro id t found
  rw [recorded.ids]
  exact ((recorded.listening id t).mp found).1

theorem Recorded.found (recorded : Recorded past m) (t : Nat) : (m.radios[t]?).map Radio.id = (names past)[t]? := by
  rw [← recorded.ids, List.getElem?_map]

theorem recorded_empty : Recorded [] empty where
  ids := rfl
  nodup := List.nodup_nil
  links _ _ := iff_of_false List.not_mem_nil Bool.false_ne_true
  listening _ _ := iff_of_false nofun fun both => Bool.false_ne_true both.2

theorem Recorded.attach (recorded : Recorded past m) (id : Identifier) :
    Recorded (.attach id :: past) (m.attach id).2 where
  ids := by
    rw [names, ← recorded.ids]
    exact List.map_append
  nodup := recorded.nodup
  links := recorded.links
  listening := by
    intro id' t
    have count : m.radios.length = (names past).length := by rw [← recorded.ids, List.length_map]
    have before := recorded.listening id' t
    rw [Medium.attach, Directory.find?_insert, names, onAir, count, Bool.or_eq_true, Bool.and_eq_true, decide_eq_true_eq,
      decide_eq_true_eq]
    by_cases latest : t = (names past).length
    · rw [latest, List.getElem?_length] at before
      rw [latest, List.getElem?_concat_length]
      by_cases same : id' = id
      · rw [if_pos same, same]
        exact iff_of_true rfl ⟨rfl, Or.inl rfl⟩
      · rw [if_neg same]
        exact iff_of_false (fun found => nomatch (before.mp found).1) fun both => same (Option.some.inj both.1).symm
    · rw [names_attach latest]
      by_cases same : id' = id
      · rw [if_pos same, same]
        exact iff_of_false (fun found => latest (Option.some.inj found).symm) fun ⟨here, on⟩ =>
          (on.resolve_left latest).2 here
      · rw [if_neg same, before]
        exact ⟨fun ⟨here, on⟩ => ⟨here, Or.inr ⟨on, fun there => same (Option.some.inj (here.symm.trans there))⟩⟩,
          fun ⟨here, on⟩ => ⟨here, (on.resolve_left latest).1⟩⟩

theorem Recorded.close (recorded : Recorded past m) (s : Nat) : Recorded (.close s :: past) (m.close s) := by
  have found := recorded.found s
  unfold Medium.close
  cases stored : m.radios[s]? with
  | none =>
      refine ⟨recorded.ids, recorded.nodup, recorded.links, fun id t => ?_⟩
      rw [stored, Option.map_none] at found
      rw [recorded.listening, onAir, namesake, ← found]
      grind [names]
  | some radio =>
      refine ⟨recorded.ids, recorded.nodup, recorded.links, fun id t => ?_⟩
      rw [stored, Option.map_some] at found
      have before := recorded.listening id t
      rw [Directory.find?_erase, onAir, namesake, ← found]
      by_cases same : id = radio.id <;> grind [names]

theorem after_recorded (past : List Use) : Recorded past (after past) := by
  induction past with
  | nil => exact recorded_empty
  | cons u past ih =>
      cases u with
      | attach id => exact ih.attach id
      | close s => exact ih.close s
      | link a b =>
          refine ⟨ih.ids, Links.nodup_join ih.nodup a b, fun c d => ?_, ih.listening⟩
          have joined : (c, d) ∈ (after (.link a b :: past)).links ↔ _ := Links.mem_join
          rw [joined, ih.links, linked, Bool.or_eq_true, decide_eq_true_eq]
      | unlink a b =>
          refine ⟨ih.ids, Links.nodup_cut ih.nodup a b, fun c d => ?_, ih.listening⟩
          have left : (c, d) ∈ (after (.unlink a b :: past)).links ↔ _ := Links.mem_cut
          rw [left, ih.links, linked, Bool.and_eq_true, decide_eq_true_eq]
      | send s packet =>
          have same := ih.alike (send_alike s packet (after past))
          exact ⟨same.ids, same.nodup, same.links, same.listening⟩
      | receive s =>
          have same := ih.alike (receive_alike s (after past))
          exact ⟨same.ids, same.nodup, same.links, same.listening⟩

theorem Recorded.waiting_send (recorded : Recorded past m) (s t : Nat) (packet : Packet) :
    (m.send s packet).waiting t =
      m.waiting t ++ if onAir namesake t past && inReach past s t packet then [packet.payload] else [] := by
  have found := recorded.found s
  unfold Medium.send inReach
  cases stored : m.radios[s]? with
  | none =>
      rw [stored, Option.map_none] at found
      rw [← found, Bool.and_false, if_neg Bool.false_ne_true, List.append_nil]
  | some radio =>
      rw [stored, Option.map_some] at found
      rw [waiting_deliver_all recorded.named _ (nodup_hearers recorded.nodup radio.id packet), ← found]
      congr 2
      simp only [mem_hearers, recorded.links, recorded.listening]
      grind

theorem received_on_air (t : Nat) (past : List Use) : received t past = sentTo namesake t past := by
  induction past with
  | nil => rfl
  | cons u past ih =>
      rw [received] at ih
      cases u with
      | attach id => exact (congrArg (handed t past ++ ·) (waiting_attach id t _)).trans ih
      | link a b | unlink a b => exact ih
      | close s => exact (congrArg (handed t past ++ ·) (waiting_close s t _)).trans ih
      | send s packet =>
          have heard := (after_recorded past).waiting_send s t packet
          rw [received, handed, after, use, heard, ← List.append_assoc, ih, sentTo]
          exact nofun
      | receive s =>
          rw [waiting_receive s t, ← List.append_assoc] at ih
          exact ih

theorem on_air_inside {closes : List Identifier → Nat → Nat → Bool} (on : onAir closes t past) : t < (names past).length := by
  induction past with
  | nil => cases on
  | cons u past ih =>
      cases u with
      | attach id =>
          rw [names, List.length_append, List.length_singleton]
          rw [onAir, Bool.or_eq_true, Bool.and_eq_true, decide_eq_true_eq] at on
          rcases on with latest | ⟨on, _⟩
          · omega
          · exact Nat.lt_succ_of_lt (ih on)
      | close s => exact ih (Bool.and_eq_true_iff.mp on).1
      | link | unlink | send | receive => exact ih on

theorem Recorded.listens_iff (recorded : Recorded past m) (t : Nat) : m.Listens t ↔ onAir namesake t past := by
  have found := recorded.found t
  unfold Listens
  constructor
  · intro listens
    obtain ⟨radio, _, here⟩ := Option.bind_eq_some_iff.mp listens
    exact ((recorded.listening radio.id t).mp here).2
  · intro on
    rw [List.getElem?_eq_getElem (on_air_inside on)] at found
    obtain ⟨radio, stored, named⟩ := Option.map_eq_some_iff.mp found
    rw [stored]
    refine (recorded.listening radio.id t).mpr ⟨?_, on⟩
    rw [List.getElem?_eq_getElem (on_air_inside on), named]

theorem on_air_itself (on : onAir namesake t past) : onAir itself t past := by
  induction past with
  | nil => cases on
  | cons u past ih =>
      cases u with
      | attach id =>
          rw [onAir, Bool.or_eq_true, Bool.and_eq_true] at on ⊢
          exact on.imp_right (And.imp_left ih)
      | close s =>
          rw [onAir, Bool.and_eq_true, namesake] at on
          rw [onAir, Bool.and_eq_true, itself]
          refine ⟨ih on.1, ?_⟩
          by_cases same : s = t
          · subst same
            simp at on
          · simp [same]
      | link | unlink | send | receive => exact ih on

theorem on_air_left (stays : ¬ evicted t past) : onAir itself t past ↔ onAir namesake t past := by
  refine ⟨fun on => ?_, on_air_itself⟩
  induction past with
  | nil => cases on
  | cons u past ih =>
      cases u with
      | attach id =>
          rw [onAir, Bool.or_eq_true, Bool.and_eq_true] at on ⊢
          exact on.imp_right (And.imp_left (ih stays))
      | close s =>
          rw [onAir, Bool.and_eq_true, itself] at on
          rw [evicted, Bool.or_eq_true, not_or, on.1] at stays
          rw [onAir, Bool.and_eq_true]
          refine ⟨ih stays.1 on.1, ?_⟩
          grind
      | link | unlink | send | receive => exact ih stays on

theorem sent_to_itself (t : Nat) (past : List Use) : (sentTo namesake t past).Sublist (sentTo itself t past) := by
  induction past with
  | nil => exact List.Sublist.refl _
  | cons u past ih =>
      cases u with
      | send s packet =>
          refine ih.append ?_
          by_cases heard : (onAir namesake t past && inReach past s t packet) = true
          · have heard' := Bool.and_eq_true_iff.mp heard
            rw [if_pos heard, if_pos (Bool.and_eq_true_iff.mpr ⟨on_air_itself heard'.1, heard'.2⟩)]
          · rw [if_neg heard]
            exact List.nil_sublist _
      | attach | link | unlink | receive | close => exact ih

theorem sent_to_left (stays : ¬ evicted t past) : sentTo itself t past = sentTo namesake t past := by
  induction past with
  | nil => rfl
  | cons u past ih =>
      cases u with
      | send s packet =>
          have same : onAir itself t past = onAir namesake t past := Bool.eq_iff_iff.mpr (on_air_left stays)
          rw [sentTo, sentTo, ih stays, same]
      | close s =>
          rw [evicted, Bool.or_eq_true, not_or] at stays
          exact ih stays.1
      | attach | link | unlink | receive => exact ih stays

-- Closing goes by name: it takes off the air whichever radio listens under its identifier, a later one too.
theorem received_in_reach (past : List Use) :
    (after past).links.Symmetric ∧
    ∀ t,
      received t past = sentTo namesake t past ∧
      ((after past).Listens t ↔ onAir namesake t past) ∧
      (∀ s, (after (.close s :: past)).Listens t ↔ (after past).Listens t ∧ (names past)[s]? ≠ (names past)[t]?) ∧
      (received t past).Sublist (sentTo itself t past) ∧
      (¬ evicted t past → received t past = sentTo itself t past ∧ ((after past).Listens t ↔ onAir itself t past)) := by
  have recorded := after_recorded past
  refine ⟨fun a b linked => ?_, fun t => ⟨received_on_air t past, recorded.listens_iff t, fun s => ?_, ?_, fun stays => ?_⟩⟩
  · rw [recorded.links] at linked ⊢
    rwa [Sym2.eq_swap]
  · rw [(after_recorded (.close s :: past)).listens_iff, recorded.listens_iff, onAir, namesake, Bool.and_eq_true,
      Bool.not_eq_true', decide_eq_false_iff_not]
  · rw [received_on_air]
    exact sent_to_itself t past
  · rw [received_on_air, recorded.listens_iff]
    exact ⟨(sent_to_left stays).symm, (on_air_left stays).symm⟩

-- A device attaches anew and closes the radio that it had before; another one is in reach and sends to it.
def restarted : List Use :=
  let home : Identifier := ⟨⟨1⟩⟩
  let away : Identifier := ⟨⟨2⟩⟩
  [.send 0 (Packet.single home [1, 2]), .close 1, .link home away, .attach home, .attach home, .attach away]

theorem restarted_deaf :
    onAir itself 2 restarted = true ∧ ¬ (after restarted).Listens 2 ∧
    sentTo itself 2 restarted = [[1, 2]] ∧ received 2 restarted = [] := by
  decide

end Medium
end ZoneRouting

import ZoneRouting.Proofs.Engine.Receiving
import ZoneRouting.Proofs.Swarm

set_option autoImplicit false

namespace ZoneRouting.Engine

def payloadsFor (target : Identifier) (loads : List (Identifier × Bytes)) : List Bytes :=
  (loads.filter (·.1 = target)).map Prod.snd

-- The accounts of an operation that is given some payloads: every payload that it was given or held is
-- carried by one of its packets or still held.
structure Accounts (S : Suite) (heard : List Bytes) (e : Engine) (loads : List (Identifier × Bytes))
    (labels : List (Option (Identifier × Bytes))) (reply : List Packet × Engine) : Prop where
  tells : List.Forall₂ (reply.2.Tells S heard) reply.1 labels
  balance : ∀ target, (payloadsFor target loads ++ e.parkedFor target).Perm
    (payloadsFor target labels.reduceOption ++ reply.2.parkedFor target)

variable {S : Suite} {now : UInt64} {e e' : Engine} {target : Identifier} {payload bytes : Bytes} {heard : List Bytes}

theorem payloads_for_append (target : Identifier) (loads loads' : List (Identifier × Bytes)) :
    payloadsFor target (loads ++ loads') = payloadsFor target loads ++ payloadsFor target loads' := by
  rw [payloadsFor, List.filter_append, List.map_append]
  rfl

theorem payloads_for_own (target : Identifier) (payloads : List Bytes) :
    payloadsFor target (payloads.map (Prod.mk target)) = payloads := by
  have all : ∀ load ∈ payloads.map (Prod.mk target), decide (load.1 = target) = true := by
    intro load member
    obtain ⟨p, _, rfl⟩ := List.mem_map.mp member
    exact decide_eq_true rfl
  rw [payloadsFor, List.filter_eq_self.mpr all, List.map_map]
  exact List.map_id payloads

theorem payloads_for_other {k : Identifier} (other : k ≠ target) (payloads : List Bytes) :
    payloadsFor k (payloads.map (Prod.mk target)) = [] := by
  have none : ∀ load ∈ payloads.map (Prod.mk target), ¬ decide (load.1 = k) = true := by
    intro load member
    obtain ⟨p, _, rfl⟩ := List.mem_map.mp member
    exact fun same => other (of_decide_eq_true same).symm
  rw [payloadsFor, List.filter_eq_nil_iff.mpr none]
  rfl

theorem Ledger.accounts {payloads sent kept : List Bytes} {labels : List (Option (Identifier × Bytes))}
    {reply : List Packet × Engine} (ledger : Ledger S heard now e target payloads labels sent kept reply) :
    Accounts S heard e (payloads.map (Prod.mk target)) labels reply where
  tells := ledger.tells.imp fun _ _ tells => tells.keeps ledger.calm.keeps
  balance k := by
    rw [ledger.cargo, ledger.parked]
    split
    · rename_i same
      rw [same, payloads_for_own, payloads_for_own]
      refine List.perm_iff_count.mpr fun p => ?_
      have merged := ledger.merged.perm.count_eq p
      simp only [List.count_append] at merged ⊢
      omega
    · rename_i other
      rw [payloads_for_other other, payloads_for_other other]

theorem Attends.accounts {reply : List Packet × Engine} (attends : e.Attends S heard reply) :
    Accounts S heard e [] (reply.1.map fun _ => none) reply where
  tells := errands_tell attends.errands
  balance k := by
    have same : reply.2.parkedFor k = e.parkedFor k := by rw [parkedFor, attends.parked, parkedFor]
    rw [errands_reduce, same]

theorem Accounts.append {loads loads' : List (Identifier × Bytes)} {labels labels' : List (Option (Identifier × Bytes))}
    {packets packets' : List Packet} {heard' : List Bytes} {e'' : Engine}
    (first : Accounts S heard e loads labels (packets, e')) (second : Accounts S heard' e' loads' labels' (packets', e''))
    (keeps : e'.Keeps e'') :
    Accounts S (heard ++ heard') e (loads ++ loads') (labels ++ labels') (packets ++ packets', e'') where
  tells := by
    refine List.rel_append (first.tells.imp fun _ _ tells => ?_) (second.tells.imp fun _ _ tells => ?_)
    · exact (tells.keeps keeps).more fun _ member => List.mem_append_left _ member
    · exact tells.more fun _ member => List.mem_append_right _ member
  balance k := by
    have before := fun p => List.perm_iff_count.mp (first.balance k) p
    have after := fun p => List.perm_iff_count.mp (second.balance k) p
    refine List.perm_iff_count.mpr fun p => ?_
    specialize before p
    specialize after p
    rw [List.reduceOption_append, payloads_for_append, payloads_for_append]
    simp only [List.count_append] at before after ⊢
    omega

theorem send_route (S : Suite) (now : UInt64) (target : Identifier) (untagged : Kind.ofBytes? payload = none) (e : Engine) :
    e.send S now target payload = ((e.route S now target payload).1.map Prod.fst,
      { (e.route S now target payload).2 with
        outgoing := (e.route S now target payload).2.outgoing ++
          posted ((e.route S now target payload).1.map Prod.snd) }) := by
  rw [send, untagged]
  dsimp only
  rcases e.route S now target payload with ⟨fault | reply, e₁⟩
  · refine Prod.ext rfl ?_
    dsimp only [Except.map, posted]
    rw [List.append_nil]
  · rfl

theorem Calm.outgoing (calm : e.Calm now e') : e'.outgoing = e.outgoing := calm.settles.outgoing

theorem take_send (S : Suite) (now : UInt64) (target : Identifier) (orderly : e.Orderly)
    (untagged : Kind.ofBytes? payload = none) :
    (e.send S now target payload).2.outgoing = e.outgoing ++ (e.take S (.send now target payload)).1 ∧
      (e.take S (.send now target payload)).1 = posted ((e.route S now target payload).1.map Prod.snd) := by
  obtain ⟨_, _, _, ledger⟩ := route_ledger (S := S) now target [] orderly untagged
  have same : (e.send S now target payload).2.outgoing =
      e.outgoing ++ posted ((e.route S now target payload).1.map Prod.snd) := by
    rw [send_route S now target untagged e]
    exact congrArg (· ++ _) ledger.calm.outgoing
  rw [take]
  dsimp only
  rw [same, List.drop_left]
  exact ⟨rfl, rfl⟩

theorem parked_accepted (now : UInt64) (a : Acknowledgement) (target : Identifier) (ring : Keyring) (e : Engine)
    (k : Identifier) : (e.accepted now a target ring).parkedFor k = if k = target then [] else e.parkedFor k :=
  parked_for_erase target k e

theorem Ledger.left {a : Acknowledgement} {ring : Keyring} {payloads sent kept : List Bytes}
    {labels : List (Option (Identifier × Bytes))} {reply : List Packet × Engine}
    (ledger : Ledger S heard now (e.accepted now a target ring) target payloads labels sent kept reply) :
    reply.2.parkedFor target = kept := by
  rw [ledger.parked, if_pos rfl, parked_accepted, if_pos rfl, List.nil_append]

theorem send_tagged (S : Suite) (now : UInt64) (target : Identifier) (e : Engine) {kind : Kind}
    (tagged : Kind.ofBytes? payload = some kind) : e.send S now target payload = (.error (.reservedTag kind), e) := by
  rw [send, tagged]

theorem take_refused (S : Suite) (now : UInt64) (target : Identifier) (e : Engine) {kind : Kind}
    (tagged : Kind.ofBytes? payload = some kind) : e.take S (.send now target payload) = ([], e) := by
  rw [take, send_tagged S now target e tagged, List.drop_length]

theorem take_accounts (orderly : e.Orderly) (input : Input) :
    ∃ labels, Accounts S input.heard e input.loads labels (e.take S input) := by
  cases input with
  | send now target payload =>
      cases tagged : Kind.ofBytes? payload with
      | some kind =>
          have loads : (Input.send now target payload).loads = [] := by rw [Input.loads, tagged]; rfl
          rw [loads, take_refused S now target e tagged]
          exact ⟨[], .nil, fun k => .refl _⟩
      | none =>
          obtain ⟨labels, sent, kept, ledger⟩ := route_ledger (S := S) now target [] orderly tagged
          have accounts := ledger.accounts
          have loads : (Input.send now target payload).loads = [payload].map (Prod.mk target) := by
            rw [Input.loads, if_pos tagged]
            rfl
          have taken : e.take S (.send now target payload) =
              (posted ((e.route S now target payload).1.map Prod.snd), (e.send S now target payload).2) :=
            Prod.ext (take_send S now target orderly tagged).2 rfl
          rw [loads, taken, send_route S now target tagged e]
          exact ⟨labels, accounts.tells.imp fun _ _ tells => tells.keeps ⟨rfl, rfl, fun _ _ found => found⟩, accounts.balance⟩
  | receive now bytes =>
      rcases receive_cases S now bytes orderly with attends | ⟨a, target, ring, _, _, labels, sent, kept, ledger⟩
      · exact ⟨_, attends.accounts⟩
      · have accounts := ledger.accounts
        refine ⟨labels, accounts.tells, fun k => ?_⟩
        have balance := accounts.balance k
        rw [parked_accepted] at balance
        have shelf : payloadsFor k ((e.parkedFor target).map (Prod.mk target)) ++
            (if k = target then [] else e.parkedFor k) = e.parkedFor k := by
          split
          · rename_i same
            rw [same, payloads_for_own, List.append_nil]
          · rename_i other
            rw [payloads_for_other other, List.nil_append]
        rw [shelf] at balance
        exact balance

theorem take_all_accounts (orderly : e.Orderly) (inputs : List Input) :
    ∃ labels, Accounts S (inputs.flatMap Input.heard) e (inputs.flatMap Input.loads) labels (e.takeAll S inputs) := by
  induction inputs generalizing e with
  | nil => exact ⟨[], .nil, fun k => .refl _⟩
  | cons input inputs ih =>
      have ready := orderly_changes (take_changes (S := S) orderly input) orderly
      obtain ⟨labels, first⟩ := take_accounts (S := S) orderly input
      obtain ⟨labels', rest⟩ := ih ready
      exact ⟨labels ++ labels', first.append rest (changes_keeps (take_all_changes ready inputs))⟩

theorem send_shelf (S : Suite) (now : UInt64) (target : Identifier) (orderly : e.Orderly)
    (untagged : Kind.ofBytes? payload = none) :
    (e.Sent S now target payload (e.route S now target payload) ∧ (S.Sized → e.Open S now target payload.length)) ∧
        (∀ k, (e.send S now target payload).2.parkedFor k = e.parkedFor k) ∨
      (e.Parks S [] now target payload (e.route S now target payload) ∧
          (S.Sized → ¬ e.Open S now target payload.length)) ∧
        ∀ k, (e.send S now target payload).2.parkedFor k =
          if k = target then e.parkedFor target ++ [payload] else e.parkedFor k := by
  have shelf : ∀ k, (e.send S now target payload).2.parkedFor k = (e.route S now target payload).2.parkedFor k := by
    intro k
    rw [send_route S now target untagged e]
    rfl
  rcases sent_or_parks (S := S) now target [] orderly untagged with sent | parks
  · exact Or.inl ⟨sent, fun k => (shelf k).trans (sent.1.settles.parked_for k)⟩
  · exact Or.inr ⟨parks, fun k => (shelf k).trans (parks.1.parked k)⟩

theorem send_step (orderly : e.Orderly) (untagged : Kind.ofBytes? payload = none) :
    (∃ packet, (e.send S now target payload).2.outgoing = e.outgoing ++ [packet] ∧ e.Carries S target payload packet ∧
        ∀ k, (e.send S now target payload).2.parkedFor k = e.parkedFor k) ∨
      ∃ packets, (e.send S now target payload).2.outgoing = e.outgoing ++ packets ∧
        (∀ packet ∈ packets, Errand S [] e packet) ∧
        ∀ k, (e.send S now target payload).2.parkedFor k =
          if k = target then e.parkedFor target ++ [payload] else e.parkedFor k := by
  obtain ⟨outgoing, packets⟩ := take_send S now target orderly untagged
  rw [packets] at outgoing
  rcases send_shelf S now target orderly untagged with
    ⟨⟨⟨⟨_, packet, _, result, carries⟩, _⟩, _⟩, shelf⟩ | ⟨⟨parks, _⟩, shelf⟩
  · rw [result] at outgoing
    exact Or.inl ⟨packet, outgoing, carries, shelf⟩
  · refine Or.inr ⟨_, outgoing, ?_, shelf⟩
    cases result : (e.route S now target payload).1 with
    | error fault => exact nofun
    | ok reply => exact (parks.errands reply.1 reply.2 result).2

-- Each packet of the run is labelled, with the payload that it takes or as an errand, and the labels balance.
theorem payloads_conserved (reachable : e.Reachable S) :
    (∀ inputs, ∃ labels, Accounts S (inputs.flatMap Input.heard) e (inputs.flatMap Input.loads) labels (e.takeAll S inputs)) ∧
    (∀ now target payload, Kind.ofBytes? payload = none →
      (∃ packet, (e.send S now target payload).2.outgoing = e.outgoing ++ [packet] ∧ e.Carries S target payload packet ∧
          ∀ k, (e.send S now target payload).2.parkedFor k = e.parkedFor k) ∨
        ∃ packets, (e.send S now target payload).2.outgoing = e.outgoing ++ packets ∧
          (∀ packet ∈ packets, Errand S [] e packet) ∧
          ∀ k, (e.send S now target payload).2.parkedFor k =
            if k = target then e.parkedFor target ++ [payload] else e.parkedFor k) ∧
    ∀ now bytes, e.Attends S [bytes] (e.receive S now bytes) ∨
      ∃ a target ring labels sent, e.content? S bytes = some (.datagram (.acknowledgement a)) ∧ e.Accepts S a target ring ∧
        List.Forall₂ ((e.receive S now bytes).2.Tells S [bytes]) (e.receive S now bytes).1 labels ∧
        labels.reduceOption = sent.map (Prod.mk target) ∧
        Interleaves sent ((e.receive S now bytes).2.parkedFor target) (e.parkedFor target) ∧
        ∀ k, k ≠ target → (e.receive S now bytes).2.parkedFor k = e.parkedFor k := by
  have orderly := reachable_orderly reachable
  refine ⟨take_all_accounts orderly, fun now target payload untagged => send_step orderly untagged, fun now bytes => ?_⟩
  rcases receive_cases S now bytes orderly with attends | ⟨a, target, ring, content, accepts, labels, sent, kept, ledger⟩
  · exact Or.inl attends
  · refine Or.inr ⟨a, target, ring, labels, sent, content, accepts, ledger.accounts.tells, ledger.cargo, ?_, fun k other => ?_⟩
    · exact ledger.left ▸ ledger.merged
    · rw [ledger.parked, if_neg other, parked_accepted, if_neg other]

-- The first of four devices that are numbered from one on, before it hears of the others.
def lone : Engine := Engine.start Suite.plain {} (numbered (0 : Fin 4)) (Random.ofSeed 0)

def far : Identifier := (numbered (3 : Fin 4)).id

def octetsOf (d : Datagram) : Bytes := (Wire.encode d).toOption.getD []

def announced (now : UInt64) (u : Fin 4) : Input :=
  .receive now (octetsOf (.advertisement
    { origin := (numbered u).id, key := (numbered u).publicKey Suite.plain, route := [], interval := 100000 }))

def answerBy (border : Fin 4) : Acknowledgement where
  route := [(numbered (0 : Fin 4)).id, (numbered border).id, far]
  targetKey := (numbered (3 : Fin 4)).publicKey Suite.plain

def answered (now : UInt64) (border : Fin 4) : Input := .receive now (octetsOf (.acknowledgement (answerBy border)))

def posting (now : UInt64) (payload : Bytes) : Input := .send now far payload

theorem payloads_conserved_lone :
    (∃ labels, Accounts Suite.plain ([announced 0 2, posting 0 [1, 2, 3], answered 0 2].flatMap Input.heard) lone
      [(far, [1, 2, 3])] labels (lone.takeAll Suite.plain [announced 0 2, posting 0 [1, 2, 3], answered 0 2])) ∧
    (lone.takeAll Suite.plain [announced 0 2, posting 0 [1, 2, 3]]).2.parkedFor far = [[1, 2, 3]] ∧
    (lone.takeAll Suite.plain [announced 0 2, posting 0 [1, 2, 3], answered 0 2]).2.parkedFor far = [] :=
  ⟨(payloads_conserved (.start _ _ _)).1 [announced 0 2, posting 0 [1, 2, 3], answered 0 2], by decide +kernel, by decide +kernel⟩

end ZoneRouting.Engine

import ZoneRouting.Datalink

set_option autoImplicit false

namespace ZoneRouting.Peers

variable {α : Type}

-- What comes of sending to addresses in turn: all of them are tried and work, or those up to the first that does not.
inductive Tries (fault? : α → Option IoFault) (order : List α) : List α × Except Fault Unit → Prop
  | whole (works : ∀ address ∈ order, fault? address = none) : Tries fault? order (order, .ok ())
  | cut (before after : List α) (bad : α) (fault : IoFault) (split : order = before ++ bad :: after)
      (works : ∀ address ∈ before, fault? address = none) (fails : fault? bad = some fault) :
      Tries fault? order (before ++ [bad], .error (.io fault))

variable {fault? : α → Option IoFault} {order : List α}

theorem attempt_tries (fault? : α → Option IoFault) (order : List α) : Tries fault? order (attempt fault? order) := by
  induction order with
  | nil => exact .whole nofun
  | cons address rest ih =>
      rw [attempt]
      cases found : fault? address with
      | some fault => exact .cut [] rest address fault rfl nofun found
      | none =>
          dsimp only
          generalize attempt fault? rest = result at ih
          cases ih with
          | whole works => exact .whole (List.forall_mem_cons.mpr ⟨found, works⟩)
          | cut before after bad fault split works fails =>
              exact .cut (address :: before) after bad fault (congrArg (address :: ·) split)
                (List.forall_mem_cons.mpr ⟨found, works⟩) fails

theorem attempt_whole_iff (fault? : α → Option IoFault) (order : List α) :
    (attempt fault? order).1 = order ↔ ∀ address ∈ order.dropLast, fault? address = none := by
  have tries := attempt_tries fault? order
  generalize attempt fault? order = result at tries
  cases tries with
  | whole works => exact iff_of_true rfl fun address member => works address (List.dropLast_subset order member)
  | cut before after bad fault split works fails =>
      subst split
      cases after with
      | nil => exact iff_of_true rfl fun address member => works address (by simpa using member)
      | cons next rest =>
          refine iff_of_false (fun same => ?_) fun all => ?_
          · simpa using congrArg List.length same
          · have inside : bad ∈ (before ++ bad :: next :: rest).dropLast := by simp
            cases (all bad inside).symm.trans fails

-- The order of the neighbours is not determined, so any of them that fails can keep the packet from all others.
theorem broadcast_cut_short (peers : Peers α) (fault? : α → Option IoFault) (payload : Bytes) :
    peers.send fault? (Packet.broadcast payload) = attempt fault? peers.values ∧
    (∀ order, order.Perm peers.values → Tries fault? order (attempt fault? order) ∧
      ((attempt fault? order).1 = order ↔ ∀ address ∈ order.dropLast, fault? address = none)) ∧
    ∀ bad ∈ peers.values, (fault? bad).isSome → ∃ order, order.Perm peers.values ∧ (attempt fault? order).1 = [bad] := by
  refine ⟨rfl, fun order _ => ⟨attempt_tries fault? order, attempt_whole_iff fault? order⟩, fun bad member fails => ?_⟩
  obtain ⟨before, after, split⟩ := List.append_of_mem member
  obtain ⟨fault, found⟩ := Option.isSome_iff_exists.mp fails
  refine ⟨bad :: (before ++ after), split ▸ List.perm_middle.symm, ?_⟩
  rw [attempt, found]

-- Of two neighbours the first is out of reach, and the other is not tried.
theorem broadcast_cut_short_pair :
    let peers : Peers Nat := Directory.ofList [(⟨⟨1⟩⟩, 0), (⟨⟨2⟩⟩, 1)]
    let fault? : Nat → Option IoFault := fun address => if address = 0 then some .networkUnreachable else none
    peers.values = [0, 1] ∧ fault? 1 = none ∧ 1 ∉ (peers.send fault? (Packet.broadcast [1, 2])).1 := by
  decide

end ZoneRouting.Peers

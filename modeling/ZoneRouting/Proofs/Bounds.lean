import ZoneRouting.Proofs.Routes
import ZoneRouting.Proofs.Sealing
import ZoneRouting.Proofs.Wire.Canonical

set_option autoImplicit false

namespace ZoneRouting

-- Arithmetic on a machine with a largest number, and on lists as it holds them. Where a result would be larger than that or
-- below zero, and where there is nothing at a place, the machine stops. That is `none` in all that follows.
def plus? (largest a b : Nat) : Option Nat := if a + b ≤ largest then some (a + b) else none

def minus? (a b : Nat) : Option Nat := if b ≤ a then some (a - b) else none

def Bytes.slice? (start stop : Nat) (bytes : Bytes) : Option Bytes :=
  if start ≤ stop ∧ stop ≤ bytes.length then some ((bytes.drop start).take (stop - start)) else none

theorem plus_checked {largest a b : Nat} (small : a + b ≤ largest) : plus? largest a b = some (a + b) := if_pos small

theorem minus_checked {a b : Nat} (less : b ≤ a) : minus? a b = some (a - b) := if_pos less

theorem slice_checked {start stop : Nat} {bytes : Bytes} (ordered : start ≤ stop) (inside : stop ≤ bytes.length) :
    bytes.slice? start stop = some ((bytes.drop start).take (stop - start)) := if_pos ⟨ordered, inside⟩

theorem Route.after_place (id : Identifier) (route : Route) :
    after? id route = (route.idxOf? id).bind fun place => route[place + 1]? := by
  induction route with
  | nil => rfl
  | cons a route ih =>
      cases route with
      | nil =>
          rw [List.idxOf?_cons]
          split <;> rfl
      | cons b rest =>
          rw [after?, List.idxOf?_cons]
          by_cases here : a = id
          · rw [if_pos here, if_pos (beq_iff_eq.mpr here)]
            rfl
          · rw [if_neg here, if_neg (mt beq_iff_eq.mp here), ih, Option.bind_map]
            rfl

theorem Route.before_place {id : Identifier} {route : Route} (later : route.head? ≠ some id) :
    before? id route = (route.idxOf? id).bind fun place => route[place - 1]? := by
  induction route with
  | nil => rfl
  | cons a route ih =>
      have other : a ≠ id := fun same => later (congrArg some same)
      rw [List.idxOf?_cons, if_neg (mt beq_iff_eq.mp other), Option.bind_map]
      cases route with
      | nil => rfl
      | cons b rest =>
          rw [before?]
          by_cases here : b = id
          · rw [if_pos here, List.idxOf?_cons, if_pos (beq_iff_eq.mpr here)]
            rfl
          · have apart : (b :: rest).head? ≠ some id := fun same => here (Option.some.inj same)
            rw [if_neg here, ih apart, List.idxOf?_cons, if_neg (mt beq_iff_eq.mp here), Option.bind_map, Option.bind_map]
            rfl

theorem Route.place_inside {id : Identifier} {route : Route} {place : Nat} (found : route.idxOf? id = some place) :
    route[place]? = some id := by
  obtain ⟨inside, same, _⟩ := List.findIdx?_eq_some_iff_getElem.mp found
  rw [List.getElem?_eq_getElem inside, beq_iff_eq.mp same]

theorem Route.place_first {id : Identifier} {route : Route} {place : Nat} (found : route.idxOf? id = some place) :
    route.head? = some id ↔ place = 0 := by
  constructor
  · intro first
    obtain ⟨rest, rfl⟩ := List.head?_eq_some_iff.mp first
    rw [List.idxOf?_cons, if_pos (beq_self_eq_true id)] at found
    exact (Option.some.inj found).symm
  · rintro rfl
    rw [List.head?_eq_getElem?, place_inside found]

namespace Wire

def decodeAsChecked (kind : Kind) (bytes : Bytes) : Option (Except Fault Datagram) :=
  if bytes.length < headerLength then some (.error (.invalidBuffer .tooShort))
  else
    match Kind.ofBytes? bytes with
    | none => (bytes.slice? 0 4).map fun raw => .error (.unknownTag raw)
    | some found =>
      if found = kind then
        (bytes.slice? 4 headerLength).bind fun header =>
          if Bytes.toNatBE header > maxBody then some (.error (.tooLarge (Bytes.toNatBE header)))
          else
            (bytes.slice? headerLength bytes.length).map fun content =>
              if content.length ≠ Bytes.toNatBE header then
                .error (.invalidBuffer (.bodyLength (Bytes.toNatBE header) content.length))
              else decodeBody kind content
      else some (.error (.invalidBuffer (.wrongKind kind found)))

def decodeChecked (bytes : Bytes) : Option (Except Fault Datagram) :=
  match Kind.ofBytes? bytes with
  | none =>
    (bytes.slice? 0 (min bytes.length 4)).map fun octets =>
      .error (.unknownTag (octets ++ List.replicate (4 - octets.length) 0))
  | some kind => decodeAsChecked kind bytes

theorem decode_as_checked (kind : Kind) (bytes : Bytes) : decodeAsChecked kind bytes = some (decodeAs kind bytes) := by
  rw [decodeAsChecked, decodeAs]
  by_cases short : bytes.length < headerLength
  · rw [if_pos short, if_pos short]
  · have long : headerLength ≤ bytes.length := Nat.le_of_not_lt short
    have header : bytes.slice? 4 headerLength = some ((bytes.drop 4).take 4) := slice_checked (by decide) long
    have content : bytes.slice? headerLength bytes.length = some (bytes.drop headerLength) := by
      rw [slice_checked long (Nat.le_refl _), ← List.length_drop, List.take_length]
    rw [if_neg short, if_neg short]
    cases Kind.ofBytes? bytes with
    | none =>
        dsimp only
        rw [slice_checked (Nat.zero_le 4) (Nat.le_trans (by decide) long)]
        rfl
    | some found =>
        dsimp only
        rw [header, content]
        dsimp only [Option.bind_some, Option.map_some]
        split
        · split <;> rfl
        · rfl

theorem decode_checked (bytes : Bytes) : decodeChecked bytes = some (decode bytes) := by
  rw [decodeChecked, decode]
  cases Kind.ofBytes? bytes with
  | none =>
      have first : bytes.slice? 0 (min bytes.length 4) = some (bytes.take 4) := by
        rw [slice_checked (Nat.zero_le _) (Nat.min_le_left _ _), List.drop_zero, Nat.sub_zero, Nat.min_comm, ← List.take_take,
          List.take_length]
      have rest : 4 - (bytes.take 4).length = 4 - bytes.length := by
        rw [List.length_take]
        omega
      dsimp only
      rw [first, List.take_append, List.take_replicate, Option.map_some, rest, Nat.min_eq_left (Nat.sub_le 4 _)]
  | some kind => exact decode_as_checked kind bytes

end Wire

variable {S : Suite}

def Token.readChecked (S : Suite) (key : SharedKey) (token : Bytes) : Option (Except CryptoFault Bytes) :=
  if token.length < 64 then some (.error .tokenTooShort)
  else do
    let start ← token.slice? 0 16
    let rest ← token.slice? 16 token.length
    let middle ← minus? rest.length 32
    let text ← rest.slice? 0 middle
    let code ← rest.slice? middle rest.length
    if text.length % 16 ≠ 0 then some (.error .unaligned)
    else if S.mac key.mac (start ++ text) ≠ code then some (.error .authentication)
    else
      let plain := join (unchain (S.cipher key.cipher) (Block.ofBytes (start ++ text)) (blocks (text.length / 16) text))
      some <| match unpad? plain with
        | some payload => .ok payload
        | none => .error .padding

theorem Token.read_checked (key : SharedKey) (token : Bytes) : readChecked S key token = some (read S key token) := by
  rw [readChecked, read]
  by_cases short : token.length < 64
  · rw [if_pos short, if_pos short]
  · have long : 64 ≤ token.length := Nat.le_of_not_lt short
    have start : token.slice? 0 16 = some (token.take 16) := slice_checked (Nat.zero_le _) (by omega)
    have rest : token.slice? 16 token.length = some (token.drop 16) := by
      rw [slice_checked (by omega) (Nat.le_refl _), ← List.length_drop, List.take_length]
    have middle : minus? (token.drop 16).length 32 = some (token.length - 48) := by
      rw [List.length_drop, minus_checked (by omega), Nat.sub_sub]
    have inside : token.length - 48 ≤ (token.drop 16).length := by
      rw [List.length_drop]
      omega
    have text : Bytes.slice? 0 (token.length - 48) (token.drop 16) = some ((token.take (token.length - 32)).drop 16) := by
      rw [slice_checked (Nat.zero_le _) inside, List.drop_take, List.drop_zero, Nat.sub_zero, Nat.sub_sub]
    have code : Bytes.slice? (token.length - 48) (token.drop 16).length (token.drop 16) =
        some (token.drop (token.length - 32)) := by
      rw [slice_checked inside (Nat.le_refl _), ← List.length_drop, List.take_length, List.drop_drop]
      congr 2
      omega
    have content : token.take 16 ++ (token.take (token.length - 32)).drop 16 = token.take (token.length - 32) := by
      have front : token.take 16 = (token.take (token.length - 32)).take 16 := by
        rw [List.take_take, Nat.min_eq_left (by omega)]
      rw [front, List.take_append_drop]
    rw [if_neg short, if_neg short, start, rest]
    simp only [Option.bind_eq_bind, Option.bind_some, middle, text, code, content]
    split
    · rfl
    · split <;> rfl

def Message.unwrapChecked (S : Suite) (m : Message) (recipient : KeyPair) (sender : PublicKey) : Option (Except Fault Bytes) :=
  match recipient.sharedKey S sender with
  | .error fault => some (.error fault)
  | .ok shared =>
    (Token.readChecked S shared m.payload).map fun
      | .error fault => .error (.crypto fault)
      | .ok payload =>
        match sender.verify S payload m.signature with
        | .error fault => .error (.crypto fault)
        | .ok () => .ok payload

theorem Message.unwrap_checked (m : Message) (recipient : KeyPair) (sender : PublicKey) :
    m.unwrapChecked S recipient sender = some (m.unwrap S recipient sender) := by
  rw [unwrapChecked, unwrap]
  cases recipient.sharedKey S sender with
  | error fault => rfl
  | ok shared =>
      dsimp only
      rw [Token.read_checked]
      cases Token.read S shared m.payload <;> rfl

namespace ZoneTable

-- The zone of a device, with the numbers of hops worked out from the routes.
def emptyChecked (largest : Nat) (owner : Identifier) (zoneRadius : Nat) : Option ZoneTable :=
  (plus? largest zoneRadius 1).map fun borderHops => ⟨owner, borderHops, RouteBook.empty, []⟩

def learnChecked (table : ZoneTable) (a : Advertisement) (now : UInt64) : Option (Bool × ZoneTable) :=
  if a.route.getLast? = some table.owner ∧ Route.LoopFree (routeTo a) then
    (minus? (routeTo a).length 1).map fun hops =>
      (true, { table with
        book := table.book.store a.origin (routeTo a) (deadline now a.interval)
        candidates :=
          if hops = table.borderHops ∧ a.origin ∉ table.candidates then table.candidates ++ [a.origin] else table.candidates })
  else some (false, table)

def sweepChecked (borderHops : Nat) (excluded : List Identifier) (now : UInt64) :
    List Identifier → RouteBook → Option (List Identifier × List Identifier × RouteBook)
  | [], book => some ([], [], book)
  | node :: nodes, book =>
    match book.lookup node now with
    | (none, book) => sweepChecked borderHops excluded now nodes book
    | (some route, book) => do
      let hops ← minus? route.length 1
      let (border, kept, book) ← sweepChecked borderHops excluded now nodes book
      if hops = borderHops ∧ node ∉ excluded then some (node :: border, node :: kept, book)
      else some (border, node :: kept, book)

def borderNodesChecked (table : ZoneTable) (excluded : List Identifier) (now : UInt64) : Option (List Identifier × ZoneTable) :=
  (sweepChecked table.borderHops excluded now table.candidates table.book).map fun (border, candidates, book) =>
    (border, { table with book, candidates })

theorem empty_checked {largest zoneRadius : Nat} (owner : Identifier) (small : zoneRadius < largest) :
    emptyChecked largest owner zoneRadius = some (empty owner zoneRadius) := by
  rw [emptyChecked, plus_checked small]
  rfl

theorem learn_checked (table : ZoneTable) (a : Advertisement) (now : UInt64) :
    table.learnChecked a now = some (table.learn a now) := by
  have long : (routeTo a).length = a.route.length + 1 := by
    rw [routeTo, List.length_append, List.length_reverse, List.length_singleton]
  rw [learnChecked, learn]
  split
  · rw [minus_checked (long ▸ Nat.le_add_left 1 _), long]
    simp only [Option.map_some, Nat.add_sub_cancel, Nat.add_right_cancel_iff]
  · rfl

theorem sweep_checked (borderHops : Nat) (excluded : List Identifier) (now : UInt64) (nodes : List Identifier) {book : RouteBook}
    (some : book.All fun _ route => 1 ≤ route.length) :
    sweepChecked borderHops excluded now nodes book = .some (sweep borderHops excluded now nodes book) := by
  induction nodes generalizing book with
  | nil => rfl
  | cons node nodes ih =>
      have later := RouteBook.all_lookup some node now
      rw [sweepChecked, sweep]
      rcases found : book.lookup node now with ⟨_ | route, rest⟩ <;> rw [found] at later
      · exact ih later
      · obtain ⟨⟨r, member, rfl, _⟩, _⟩ := RouteBook.lookup_some (congrArg Prod.fst found)
        have long : 1 ≤ r.hops.length := some node r member
        have border : r.hops.length - 1 = borderHops ↔ r.hops.length = borderHops + 1 := by omega
        dsimp only
        rw [minus_checked long, ih later]
        simp only [Option.bind_eq_bind, Option.bind_some, border]
        split <;> rfl

theorem border_nodes_checked {table : ZoneTable} (some : table.book.All fun _ route => 1 ≤ route.length)
    (excluded : List Identifier) (now : UInt64) :
    table.borderNodesChecked excluded now = .some (table.borderNodes excluded now) := by
  rw [borderNodesChecked, sweep_checked _ _ _ _ some]
  rfl

end ZoneTable
end ZoneRouting

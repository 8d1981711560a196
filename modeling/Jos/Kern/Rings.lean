/-
  Jos.Kern.Rings — **DRIVER AND CARD ON THE TWO RINGS** (`kern/e1000.c`).

  `E1000.transmit`, and `rxFind` with `rxClear` and `rxTail`, are what
  `e1000_transmit` and `e1000_receive` do to the card's state, with the caller's
  buffer as a list of bytes (`e1000Transmit_run`, `e1000Receive_run`).  The card works at
  its own pace: it sends the descriptor at `TDH` while `TDH ≠ TDT`, and fills
  the one at `RDH` while `RDH ≠ RDT`.  A driver call is cut where it writes its
  tail register, so the card may act between the two halves.

    • `rx_in_order`: packets are returned in the order of their delivery, each
      once, for every interleaving.
    • `tx_in_order`: packets are sent in call order, each once, provided a call
      finds a slot left besides the one it fills.
    • `tx_ring_lost`: without that slot, thirty-two accepted packets vanish.
-/
import Jos.Kern.E1000
import Jos.Lib.Ring

namespace Jos

open Function (update update_of_ne update_self update_eq_self update_idem)

open Exec Jos.Ring

variable {k : Kernel} {n t : Nat} {s s' : Nic} {pkt : Packet} {pck : Word}

/-! ## §1. The two calls as functions of the card's state. -/

abbrev Packet := List (BitVec 8)

def E1000_RDH : Nat := 0x02810 / 4
def E1000_TDH : Nat := 0x03810 / 4
def E1000_TXD_CMD_RS : BitVec 8 := 0x08
def E1000_TXD_CMD_DEXT : BitVec 8 := 0x20
def E1000_RAH_AV : Word := 0x80000000#32

namespace E1000

def tdh (d : E1000) : Nat := (d.regs E1000_TDH).toNat
def tdt (d : E1000) : Nat := (d.regs E1000_TDT).toNat
def rdh (d : E1000) : Nat := (d.regs E1000_RDH).toNat
def rdt (d : E1000) : Nat := (d.regs E1000_RDT).toNat

/-- The descriptor `e1000_receive` looks at. -/
def rxIndex (d : E1000) : Nat := (d.regs E1000_RDT + 1#32).toNat % NRXQ

/-- The buffer after `memmove(buf, pkt, length)`. -/
def blit (pkt : Packet) (buf : Nat → BitVec 8) : Nat → BitVec 8 :=
  fun i => (pkt[i]?).getD (buf i)

/-- The packet a transmit descriptor describes. -/
def txPacket (d : E1000) (i : Nat) : Packet :=
  (List.range (d.txq i).length.toNat).map (d.txPaks i)

/-- The packet a receive descriptor describes. -/
def rxPacket (d : E1000) (i : Nat) : Packet :=
  (List.range (d.rxq i).length.toNat).map (d.rxPaks i)

/-- `e1000_init` for the MAC address `mac` of the EEPROM: the descriptors and
the registers the rest of the driver reads. -/
def init (mac : Nat → BitVec 16) (d : E1000) : E1000 :=
  { d with
    regs := fun r =>
      if r = E1000_TDH then 0#32
      else if r = E1000_TDT then 0#32
      else if r = E1000_RAL then (mac 0).setWidth 32 ||| ((mac 1).setWidth 32 <<< 16)
      else if r = E1000_RAH then (mac 2).setWidth 32 ||| E1000_RAH_AV
      else if r = E1000_RDH then 0#32
      else if r = E1000_RDT then BitVec.ofNat 32 (NRXQ - 1)
      else d.regs r
    txq := fun i =>
      if i < NTXQ then
        { length := 0
          cmd := (0 ||| E1000_TXD_CMD_RS) &&& ~~~E1000_TXD_CMD_DEXT
          status := 0 ||| E1000_TXD_STAT_DD }
      else d.txq i
    rxq := fun i => if i < NRXQ then { length := 0, status := 0 } else d.rxq i }

/-- `e1000_transmit` up to its last statement: buffer and descriptor. -/
def txFill (d : E1000) (pkt : Packet) : E1000 :=
  { d with
    txPaks := update d.txPaks d.tdt (blit pkt (d.txPaks d.tdt))
    txq := update d.txq d.tdt
      { status := (d.txq d.tdt).status &&& ~~~E1000_TXD_STAT_DD
        cmd := (d.txq d.tdt).cmd ||| E1000_TXD_CMD_EOP
        length := BitVec.ofNat 16 pkt.length } }

/-- Its last statement: the descriptor becomes the card's. -/
def txTail (d : E1000) : E1000 :=
  d.setReg E1000_TDT (BitVec.ofNat 32 ((d.tdt + 1) % NTXQ))

/-- The descriptor at the tail is marked done. -/
def txDone (d : E1000) : Prop := (d.txq d.tdt).status &&& E1000_TXD_STAT_DD ≠ 0

instance (d : E1000) : Decidable d.txDone := inferInstanceAs (Decidable (_ ≠ _))

/-- `e1000_transmit`. -/
def transmit (d : E1000) (pkt : Packet) : Word × E1000 :=
  if PKT_SIZE.toNat < pkt.length then (-1#32, d)
  else if ¬ d.txDone then (-1#32, d)
  else (0#32, (d.txFill pkt).txTail)

/-- `e1000_receive` between the copy to the caller and its last statement. -/
def rxClear (d : E1000) : E1000 :=
  { d with
    rxq := update d.rxq d.rxIndex { d.rxq d.rxIndex with
      status := (d.rxq d.rxIndex).status &&& ~~~E1000_RXD_STAT_DD &&& ~~~E1000_RXD_STAT_EOP } }

/-- Its last statement: the descriptor is the card's again. -/
def rxTail (d : E1000) : E1000 := d.setReg E1000_RDT (BitVec.ofNat 32 d.rxIndex)

/-- What a call of `e1000_receive` finds. -/
inductive RxFound where
  | empty
  | eopNotSet
  | packet (pkt : Packet)
  deriving DecidableEq

/-- The two tests of `e1000_receive`, and the packet it copies. -/
def rxFind (d : E1000) : RxFound :=
  if (d.rxq d.rxIndex).status &&& E1000_RXD_STAT_DD = 0 then .empty
  else if (d.rxq d.rxIndex).status &&& E1000_RXD_STAT_EOP = 0 then .eopNotSet
  else .packet (d.rxPacket d.rxIndex)

end E1000

/-! ## §2. The kernel's functions do this. -/

/-- The byte a load from `va` finds. -/
def userByte (k : Kernel) (va : Word) : Option (BitVec 8) :=
  (translate k.mem (k.cpus k.cpunum).cr3 va).map fun e =>
    getByte (k.mem (ptePage e.2) (pgoff va / 4)) (pgoff va % 4)

/-- The caller's buffer at `pck` holds `pkt`. -/
def HoldsPacket (k : Kernel) (pck : Word) (pkt : Packet) : Prop :=
  ∀ i (h : i < pkt.length), userByte k (pck + BitVec.ofNat 32 i) = some pkt[i]

/-- A load notes the access and returns the byte. -/
theorem loadByte_run {va : Word} {b : BitVec 8} (h : userByte k va = some b) :
    loadByte va k = .ok b { k with accesses := ⟨false, va⟩ :: k.accesses } := by
  obtain ⟨e, he, hb⟩ := Option.map_eq_some_iff.mp h
  have hnote : (modify fun s => { s with accesses := ⟨false, va⟩ :: s.accesses } : KM PUnit) k
      = .ok ⟨⟩ { k with accesses := ⟨false, va⟩ :: k.accesses } := rfl
  unfold loadByte
  rw [bind_ok hnote, bind_get, ← hb]
  simp only [he]
  rfl

/-- One more byte of the packet is in the buffer. -/
theorem blit_take_succ (pkt : Packet) (buf : Nat → BitVec 8) {i : Nat} (h : i < pkt.length) :
    E1000.blit (pkt.take (i + 1)) buf
      = update (E1000.blit (pkt.take i) buf) i pkt[i] := by
  funext j
  by_cases hj : j = i
  · simp [E1000.blit, hj, h]
  · have hlt : j < i + 1 ↔ j < i := by omega
    simp [E1000.blit, hj, List.getElem?_take, hlt]

/-- The bytes `xs` are in transmit buffer `idx`; only the accesses differ besides. -/
def Kernel.buffered (k : Kernel) (idx : Nat) (xs : Packet) (acc : List Access) : Kernel :=
  { k with
    accesses := acc
    e1000 := { k.e1000 with
      txPaks := update k.e1000.txPaks idx (E1000.blit xs (k.e1000.txPaks idx)) } }

/-- The copy loop. -/
theorem copyPacketIn_run (hp : HoldsPacket k pck pkt) (idx : Nat) :
    ∃ acc, copyPacketIn idx pck pkt.length k = .ok () (k.buffered idx pkt acc) := by
  -- after `i` rounds the first `i` bytes are in
  have hw : wp (copyPacketIn idx pck pkt.length)
      (fun _ t => ∃ acc, t = k.buffered idx (pkt.take (0 + pkt.length)) acc)
      (fun _ _ => False) k := by
    have h0 : k = k.buffered idx (pkt.take 0) k.accesses := by
      unfold Kernel.buffered
      rw [List.take_zero, show E1000.blit [] (k.e1000.txPaks idx) = k.e1000.txPaks idx from rfl,
        update_eq_self]
    refine wp_forUp (I := fun i t => ∃ acc, t = k.buffered idx (pkt.take i) acc) pkt.length 0 k
      ⟨_, h0⟩ ?_
    intro i t _ hi hI
    obtain ⟨acc, rfl⟩ := hI
    have hi' : i < pkt.length := by omega
    refine wp_bind_ok (loadByte_run (hp i hi')) ⟨⟨false, pck + BitVec.ofNat 32 i⟩ :: acc, ?_⟩
    unfold Kernel.buffered
    rw [blit_take_succ pkt _ hi']
    simp only [update_self, update_idem]
  obtain ⟨_, t, ht, acc, rfl⟩ := exists_ok_of_wp hw
  rw [Nat.zero_add, List.take_length] at ht
  exact ⟨acc, ht⟩

/-- **`e1000_transmit` is `E1000.transmit`** of the bytes in the caller's buffer. -/
theorem e1000Transmit_run (hp : HoldsPacket k pck pkt) (hlen : pkt.length < 2 ^ 32) :
    ∃ acc, e1000Transmit pck (BitVec.ofNat 32 pkt.length) k
      = .ok (k.e1000.transmit pkt).1
          { k with accesses := acc, e1000 := (k.e1000.transmit pkt).2 } := by
  have hn : (BitVec.ofNat 32 pkt.length).toNat = pkt.length := toNat_ofNat_lt hlen
  unfold e1000Transmit E1000.transmit
  simp only [gt_iff_lt, BitVec.lt_def, hn,
    show ∀ d : E1000, (d.regs E1000_TDT).toNat = d.tdt from fun _ => rfl]
  split_ifs with hbig hdd
  · exact ⟨k.accesses, rfl⟩
  · obtain ⟨acc, hrun⟩ := copyPacketIn_run hp k.e1000.tdt
    refine ⟨acc, ?_⟩
    rw [bind_get, if_neg hdd, bind_ok hrun, BitVec.setWidth_ofNat_of_le (by omega)]
    rfl
  · rw [bind_get, if_pos (not_not.mp hdd)]
    exact ⟨k.accesses, rfl⟩

/-- The card is set up, and one byte is sent from memory in which every word is 7. -/
theorem e1000Transmit_run_one : ∃ k k', HoldsPacket k 0#32 [7#8] ∧
    e1000Transmit 0#32 1#32 k = .ok 0#32 k' ∧ k'.e1000.tdt = 1 ∧ k'.e1000.txPacket 0 = [7#8] := by
  have h : HoldsPacket { Kernel.powerOn with
      mem := fun _ _ => 7#32
      e1000 := E1000.init (fun _ => 0) Kernel.powerOn.e1000 } 0#32 [7#8] := by
    intro i hi
    obtain rfl : i = 0 := by simpa using hi
    rfl
  obtain ⟨acc, hrun⟩ := e1000Transmit_run h (by decide)
  exact ⟨_, _, h, hrun, rfl, rfl⟩

/-- The accesses to the caller's memory leave the card alone. -/
def SameCard (s t : Kernel) : Prop := t.e1000 = s.e1000

instance : IsPreorder Kernel SameCard where
  refl _ := rfl
  trans _ _ _ h h' := Eq.trans h' h

theorem noteAccess_sameCard (a : Access) : Keeps SameCard (fun _ : Stop => True)
    (modify fun s => { s with accesses := a :: s.accesses } : KM PUnit) :=
  keeps_modify fun _ => rfl

theorem loadByte_sameCard (va : Word) : Keeps SameCard (fun _ => True) (loadByte va) := by
  refine (noteAccess_sameCard _).bind fun _ => keeps_get.bind fun s => ?_
  cases translate s.mem (s.cpus s.cpunum).cr3 va with
  | none => exact keeps_throw _ trivial
  | some x => exact keeps_pure _

theorem storeByte_sameCard (va : Word) (b : BitVec 8) :
    Keeps SameCard (fun _ => True) (storeByte va b) := by
  refine (noteAccess_sameCard _).bind fun _ => keeps_get.bind fun s => ?_
  cases translate s.mem (s.cpus s.cpunum).cr3 va with
  | none => exact keeps_throw _ trivial
  | some x =>
    exact keeps_ite (keeps_throw _ trivial) (keeps_ite (keeps_throw _ trivial)
      (keeps_modify fun _ => rfl))

/-- What `e1000_receive` does to the caller's memory. -/
def handOver (pck length : Word) (n : Word) (buf : Nat → BitVec 8) : KM Unit := do
  storeWord length n
  let n ← loadWord length
  copyOut pck buf n.toNat

theorem handOver_sameCard (pck length n : Word) (buf : Nat → BitVec 8) :
    Keeps SameCard (fun _ => True) (handOver pck length n buf) := by
  have hstore : Keeps SameCard (fun _ => True) (storeWord length n) :=
    (storeByte_sameCard _ _).bind fun _ => (storeByte_sameCard _ _).bind fun _ =>
      (storeByte_sameCard _ _).bind fun _ => storeByte_sameCard _ _
  have hload : Keeps SameCard (fun _ => True) (loadWord length) :=
    (loadByte_sameCard _).bind fun _ => (loadByte_sameCard _).bind fun _ =>
      (loadByte_sameCard _).bind fun _ => (loadByte_sameCard _).bind fun _ => keeps_pure _
  exact hstore.bind fun _ => hload.bind fun n =>
    keeps_forUp (fun _ => storeByte_sameCard _ _) 0 n.toNat

/-- **`e1000_receive` is `rxFind`**, and for a packet the copy to the caller, then
`rxClear` and `rxTail`; if the copy faults, the card keeps the packet. -/
theorem e1000Receive_run (pck length : Word) (k : Kernel) :
    e1000Receive pck length k = match k.e1000.rxFind with
      | .empty => .ok (-E_E1000_RXBUF_EMPTY) k
      | .eopNotSet => .error (.panic "e1000_receive: EOP not set") k
      | .packet pkt =>
        match handOver pck length (BitVec.ofNat 32 pkt.length) (k.e1000.rxPaks k.e1000.rxIndex)
          k with
        | .ok _ t => .ok 0#32 { t with e1000 := k.e1000.rxClear.rxTail }
        | .error x t => .error x { t with e1000 := k.e1000 } := by
  unfold e1000Receive E1000.rxFind
  rw [bind_get]
  simp only [show (k.e1000.regs E1000_RDT + 1#32).toNat % NRXQ = k.e1000.rxIndex from rfl]
  split_ifs
  · rfl
  · rfl
  -- a packet: the copy is `handOver`
  have hlen : BitVec.ofNat 32 (k.e1000.rxPacket k.e1000.rxIndex).length
      = (k.e1000.rxq k.e1000.rxIndex).length.setWidth 32 := by
    rw [E1000.rxPacket, List.length_map, List.length_range, BitVec.ofNat_toNat]
  have hover : ∀ n buf (f : Unit → KM Word), (do
      storeWord length n
      let n ← loadWord length
      copyOut pck buf n.toNat >>= f) = handOver pck length n buf >>= f := by
    intro n buf f
    simp only [handOver, bind_assoc]
  dsimp only
  rw [hover, hlen]
  have hkeep := fun n buf => handOver_sameCard pck length n buf k
  cases hrun : handOver pck length _ (k.e1000.rxPaks k.e1000.rxIndex) k with
  | ok u t =>
    have hcard := wp_ok (hkeep _ _) hrun
    rw [bind_ok hrun, E1000.rxTail, E1000.rxClear, ← show t.e1000 = k.e1000 from hcard]
    rfl
  | error x t =>
    have hcard : t.e1000 = k.e1000 := (wp_error (hkeep _ _) hrun).2
    rw [bind_error hrun, ← hcard]

/-! ## §3. The system. -/

namespace E1000

/-- The card sends the descriptor at `TDH`. -/
def txSend (d : E1000) : E1000 :=
  { d with
    txq := update d.txq d.tdh { d.txq d.tdh with
      status := (d.txq d.tdh).status ||| E1000_TXD_STAT_DD } }.setReg E1000_TDH
    (BitVec.ofNat 32 ((d.tdh + 1) % NTXQ))

/-- The card fills the descriptor at `RDH`. -/
def rxDeliver (d : E1000) (pkt : Packet) : E1000 :=
  { d with
    rxPaks := update d.rxPaks d.rdh (blit pkt (d.rxPaks d.rdh))
    rxq := update d.rxq d.rdh
      { length := BitVec.ofNat 16 pkt.length
        status := (d.rxq d.rdh).status ||| E1000_RXD_STAT_DD ||| E1000_RXD_STAT_EOP } }.setReg
    E1000_RDH (BitVec.ofNat 32 ((d.rdh + 1) % NRXQ))

/-- The packets in the descriptors from `TDH` up to `TDT`, which the card owns. -/
def txOwned (d : E1000) : List Packet := contents d.txPacket NTXQ d.tdh (gap NTXQ d.tdh d.tdt)

/-- The packets in the descriptors after `RDT` up to `RDH`, which it has filled. -/
def rxPending (d : E1000) : List Packet :=
  contents d.rxPacket NRXQ d.rxIndex (gap NRXQ d.rxIndex d.rdh)

end E1000

/-- Driver and card, with what went through them so far.  `filling` and
`taking` are the packet of a driver call whose tail write is still to come. -/
structure Nic where
  card : E1000
  filling : Option Packet
  accepted : List Packet
  wire : List Packet
  taking : Option Packet
  delivered : List Packet
  returned : List Packet

/-- The state after `e1000_init`. -/
def Nic.start (mac : Nat → BitVec 16) (d : E1000) : Nic :=
  { card := d.init mac
    filling := none
    accepted := []
    wire := []
    taking := none
    delivered := []
    returned := [] }

/-- The card takes one step. -/
inductive CardStep : Nic → Nic → Prop
  | send (s : Nic) (h : s.card.tdh ≠ s.card.tdt) :
      CardStep s { s with
        card := s.card.txSend, wire := s.wire ++ [s.card.txPacket s.card.tdh] }
  | deliver (s : Nic) (pkt : Packet) (hlen : pkt.length ≤ PKT_SIZE.toNat)
      (h : s.card.rdh ≠ s.card.rdt) :
      CardStep s { s with
        card := s.card.rxDeliver pkt, delivered := s.delivered ++ [pkt] }

/-- One step of driver or card; a call of `e1000_transmit` that gets past its
test is made where `ok` holds.  (One that does not changes nothing, nor does an
`e1000_receive` that finds the ring empty.) -/
inductive NicStep (ok : E1000 → Prop) : Nic → Nic → Prop
  | card {s s' : Nic} (h : CardStep s s') : NicStep ok s s'
  | fill (s : Nic) (pkt : Packet) (hlen : pkt.length ≤ PKT_SIZE.toNat)
      (hidle : s.filling = none) (hdd : s.card.txDone) (hok : ok s.card) :
      NicStep ok s { s with card := s.card.txFill pkt, filling := some pkt }
  | accept (s : Nic) (pkt : Packet) (h : s.filling = some pkt) :
      NicStep ok s { s with
        card := s.card.txTail, filling := none, accepted := s.accepted ++ [pkt] }
  | take (s : Nic) (pkt : Packet) (hidle : s.taking = none)
      (h : s.card.rxFind = .packet pkt) :
      NicStep ok s { s with card := s.card.rxClear, taking := some pkt }
  | giveBack (s : Nic) (pkt : Packet) (h : s.taking = some pkt) :
      NicStep ok s { s with
        card := s.card.rxTail, taking := none, returned := s.returned ++ [pkt] }

/-- The states the system reaches from `e1000_init`. -/
def NicReaches (ok : E1000 → Prop) (mac : Nat → BitVec 16) (d : E1000) : Nic → Prop :=
  Relation.ReflTransGen (NicStep ok) (Nic.start mac d)

/-! ## §4. What each operation does to the descriptors. -/

namespace E1000

/-- A packet that fits a descriptor's length field is read back from it. -/
theorem read_blit (pkt : Packet) (buf : Nat → BitVec 8) (h : pkt.length ≤ PKT_SIZE.toNat) :
    (List.range (BitVec.ofNat 16 pkt.length).toNat).map (blit pkt buf) = pkt := by
  have hlen : (BitVec.ofNat 16 pkt.length).toNat = pkt.length := by
    rw [toNat_ofNat_lt]
    have : PKT_SIZE.toNat = 2048 := rfl
    omega
  rw [hlen]
  apply List.ext_getElem
  · simp
  · intro i h1 h2
    simp [blit, h2]

theorem setReg_self (d : E1000) (r : Nat) {v : Nat} (hv : v < 128) :
    ((d.setReg r (BitVec.ofNat 32 v)).regs r).toNat = v := by
  show (update d.regs r (BitVec.ofNat 32 v) r).toNat = v
  rw [update_self, toNat_ofNat_lt (by omega)]

theorem txPacket_txFill (d : E1000) (pkt : Packet) (h : pkt.length ≤ PKT_SIZE.toNat) :
    (d.txFill pkt).txPacket = update d.txPacket d.tdt pkt := by
  funext i
  by_cases hi : i = d.tdt
  · subst hi
    simp only [txPacket, txFill, update_self]
    exact read_blit pkt _ h
  · simp [txPacket, txFill, update_of_ne hi]

theorem tdt_txTail (d : E1000) : d.txTail.tdt = (d.tdt + 1) % NTXQ :=
  setReg_self d E1000_TDT (Nat.lt_trans (Nat.mod_lt _ (by decide)) (by decide))

theorem txPacket_txSend (d : E1000) : d.txSend.txPacket = d.txPacket := by
  funext i
  by_cases hi : i = d.tdh
  · subst hi
    simp [txPacket, txSend, setReg]
  · simp [txPacket, txSend, setReg, update_of_ne hi]

theorem tdh_txSend (d : E1000) : d.txSend.tdh = (d.tdh + 1) % NTXQ :=
  setReg_self _ E1000_TDH (Nat.lt_trans (Nat.mod_lt _ (by decide)) (by decide))

theorem rxPacket_rxDeliver (d : E1000) (pkt : Packet) (h : pkt.length ≤ PKT_SIZE.toNat) :
    (d.rxDeliver pkt).rxPacket = update d.rxPacket d.rdh pkt := by
  funext i
  by_cases hi : i = d.rdh
  · subst hi
    simp only [rxPacket, rxDeliver, setReg, update_self]
    exact read_blit pkt _ h
  · simp [rxPacket, rxDeliver, setReg, update_of_ne hi]

theorem rdh_rxDeliver (d : E1000) (pkt : Packet) : (d.rxDeliver pkt).rdh = (d.rdh + 1) % NRXQ :=
  setReg_self _ E1000_RDH (Nat.mod_lt _ (by decide))

theorem rxPacket_rxClear (d : E1000) : d.rxClear.rxPacket = d.rxPacket := by
  funext i
  by_cases hi : i = d.rxIndex
  · subst hi
    simp [rxPacket, rxClear]
  · simp [rxPacket, rxClear, update_of_ne hi]

theorem rxIndex_lt (d : E1000) : d.rxIndex < NRXQ := Nat.mod_lt _ (by decide)

theorem rdt_rxTail (d : E1000) : d.rxTail.rdt = d.rxIndex := setReg_self _ E1000_RDT d.rxIndex_lt

/-- The addition in `RDT + 1` does not wrap before the modulus is taken. -/
theorem rxIndex_eq (d : E1000) : d.rxIndex = (d.rdt + 1) % NRXQ := by
  unfold rxIndex rdt
  rw [BitVec.toNat_add, BitVec.toNat_ofNat, Nat.mod_mod_of_dvd _ (by decide)]

end E1000

/-! ## §5. The transmit ring. -/

/-- A slot is left besides the one the call fills. -/
def RoomLeft (d : E1000) : Prop := (d.tdt + 1) % NTXQ ≠ d.tdh

/-- The card owns `n` descriptors, and they hold what was accepted and not sent. -/
structure TxInv (n : Nat) (s : Nic) : Prop where
  lt : n < NTXQ
  head_lt : s.card.tdh < NTXQ
  tail_eq : s.card.tdt = (s.card.tdh + n) % NTXQ
  queued : s.accepted = s.wire ++ contents s.card.txPacket NTXQ s.card.tdh n
  filling : ∀ pkt, s.filling = some pkt → n + 1 < NTXQ ∧ s.card.txPacket s.card.tdt = pkt

/-- The receive side does not touch what `TxInv` reads. -/
theorem TxInv.frame (h : TxInv n s) (hh : s'.card.tdh = s.card.tdh)
    (ht : s'.card.tdt = s.card.tdt) (hp : s'.card.txPacket = s.card.txPacket)
    (ha : s'.accepted = s.accepted) (hw : s'.wire = s.wire) (hf : s'.filling = s.filling) :
    TxInv n s' where
  lt := h.lt
  head_lt := by rw [hh]; exact h.head_lt
  tail_eq := by rw [ht, hh]; exact h.tail_eq
  queued := by rw [ha, hw, hp, hh]; exact h.queued
  filling := by rw [hf, hp, ht]; exact h.filling

/-- Sending takes the oldest packet off. -/
theorem TxInv.send (h : TxInv n s) (hne : s.card.tdh ≠ s.card.tdt) :
    ∃ m, TxInv m { s with
      card := s.card.txSend, wire := s.wire ++ [s.card.txPacket s.card.tdh] } := by
  have hlt := h.lt
  -- the ring is not empty
  obtain ⟨m, rfl⟩ : ∃ m, n = m + 1 := by
    refine Nat.exists_eq_succ_of_ne_zero fun h0 => hne ?_
    rw [h.tail_eq, h0, Nat.add_zero, Nat.mod_eq_of_lt h.head_lt]
  refine ⟨m, by omega, ?_, ?_, ?_, ?_⟩
  · rw [E1000.tdh_txSend]
    exact Nat.mod_lt _ (by decide)
  · show s.card.tdt = (s.card.txSend.tdh + m) % NTXQ
    rw [E1000.tdh_txSend, Nat.mod_add_mod, h.tail_eq]
    congr 1
    omega
  · rw [E1000.txPacket_txSend, E1000.tdh_txSend, h.queued, contents_pop _ h.head_lt]
    simp
  · intro pkt hpkt
    obtain ⟨hn, hp⟩ := h.filling pkt hpkt
    refine ⟨by omega, ?_⟩
    rw [E1000.txPacket_txSend]
    exact hp

/-- Filling the free descriptor at the tail leaves the card's alone. -/
theorem TxInv.fill (h : TxInv n s) (hlen : pkt.length ≤ PKT_SIZE.toNat) (hroom : RoomLeft s.card) :
    TxInv n { s with card := s.card.txFill pkt, filling := some pkt } where
  lt := h.lt
  head_lt := h.head_lt
  tail_eq := h.tail_eq
  queued := by
    rw [h.queued, E1000.txPacket_txFill _ _ hlen]
    congr 1
    refine contents_congr fun i hi => (update_of_ne ?_ _ _).symm
    intro he
    rw [he, h.tail_eq] at hi
    exact tail_not_mem (Nat.le_refl n) h.lt hi
  filling := by
    intro pkt' hpkt'
    obtain rfl : pkt = pkt' := Option.some.inj hpkt'
    refine ⟨?_, ?_⟩
    · -- a full ring would put the next tail on the head
      have hlt := h.lt
      by_contra hge
      obtain rfl : n = NTXQ - 1 := by omega
      apply hroom
      rw [h.tail_eq, Nat.mod_add_mod, show s.card.tdh + (NTXQ - 1) + 1 = s.card.tdh + NTXQ from rfl,
        Nat.add_mod_right, Nat.mod_eq_of_lt h.head_lt]
    · show (s.card.txFill pkt).txPacket s.card.tdt = pkt
      rw [E1000.txPacket_txFill _ _ hlen, update_self]

/-- The tail write hands the filled descriptor to the card. -/
theorem TxInv.accept (h : TxInv n s) (hpkt : s.filling = some pkt) :
    TxInv (n + 1) { s with
      card := s.card.txTail, filling := none, accepted := s.accepted ++ [pkt] } where
  lt := (h.filling pkt hpkt).1
  head_lt := h.head_lt
  tail_eq := by
    show s.card.txTail.tdt = (s.card.tdh + (n + 1)) % NTXQ
    rw [E1000.tdt_txTail, h.tail_eq, Nat.mod_add_mod, Nat.add_assoc]
  queued := by
    show s.accepted ++ [pkt] = s.wire ++ contents s.card.txPacket NTXQ s.card.tdh (n + 1)
    rw [contents_push, ← h.tail_eq, (h.filling pkt hpkt).2, h.queued, List.append_assoc]
  filling := by
    intro _ h0
    cases h0

theorem TxInv.start (mac : Nat → BitVec 16) (d : E1000) : TxInv 0 (Nic.start mac d) where
  lt := by decide
  head_lt := Nat.succ_pos 31
  tail_eq := rfl
  queued := rfl
  filling := by
    intro _ h0
    cases h0

/-- **One step keeps the transmit ring.** -/
theorem TxInv.step (h : TxInv n s) (hs : NicStep RoomLeft s s') : ∃ m, TxInv m s' := by
  cases hs with
  | card hc =>
    cases hc with
    | send hne => exact h.send hne
    | deliver pkt hlen hne => exact ⟨n, h.frame rfl rfl rfl rfl rfl rfl⟩
  | fill pkt hlen hidle hdd hok => exact ⟨n, h.fill hlen hok⟩
  | accept pkt hpkt => exact ⟨n + 1, h.accept hpkt⟩
  | take pkt hidle hfind => exact ⟨n, h.frame rfl rfl rfl rfl rfl rfl⟩
  | giveBack pkt hpkt => exact ⟨n, h.frame rfl rfl rfl rfl rfl rfl⟩

theorem TxInv.reached {mac : Nat → BitVec 16} {d : E1000}
    (h : NicReaches RoomLeft mac d s) : ∃ n, TxInv n s := by
  induction h with
  | refl => exact ⟨0, TxInv.start mac d⟩
  | tail _ hs ih =>
    obtain ⟨n, hn⟩ := ih
    exact hn.step hs

/-- What the card owns is what the invariant counts. -/
theorem TxInv.owned (h : TxInv n s) :
    s.card.txOwned = contents s.card.txPacket NTXQ s.card.tdh n := by
  rw [E1000.txOwned, h.tail_eq, gap_add h.head_lt h.lt]

/-- **THE TRANSMIT RING WITH ROOM.**  If every call finds a slot left besides
the one it fills, then at every moment the accepted packets are, in call order
and byte for byte, those sent followed by those the card still owns. -/
theorem tx_in_order {mac : Nat → BitVec 16} {d : E1000} {s : Nic}
    (h : NicReaches RoomLeft mac d s) : s.accepted = s.wire ++ s.card.txOwned := by
  obtain ⟨n, hn⟩ := TxInv.reached h
  rw [hn.owned]
  exact hn.queued

/-- A card whose registers and descriptors are all zero before `e1000_init`. -/
def E1000.zero : E1000 :=
  { regs := fun _ => 0
    txq := fun _ => { length := 0, cmd := 0, status := 0 }
    txPaks := fun _ _ => 0
    rxq := fun _ => { length := 0, status := 0 }
    rxPaks := fun _ _ => 0 }

/-- One packet accepted and sent. -/
theorem tx_in_order_one :
    ∃ s, NicReaches RoomLeft (fun _ => 0) E1000.zero s
      ∧ s.accepted = [[7]] ∧ s.wire = [[7]] ∧ s.accepted = s.wire ++ s.card.txOwned := by
  have hfill := @NicStep.fill RoomLeft (Nic.start (fun _ => 0) E1000.zero) [7]
    (by decide) rfl (by decide) (show (0 + 1) % 32 ≠ 0 by decide)
  have hacc := @NicStep.accept RoomLeft { Nic.start (fun _ => 0) E1000.zero with
    card := (E1000.zero.init fun _ => 0).txFill [7], filling := some [7] } [7] rfl
  have hreach := (Relation.ReflTransGen.single hfill).tail hacc |>.tail
    (NicStep.card (CardStep.send _ (show 0 ≠ 1 by decide)))
  exact ⟨_, hreach, rfl, by decide, tx_in_order hreach⟩

/-- `n` one-byte packets were accepted and the card did nothing. -/
structure IdleCard (n : Nat) (s : Nic) : Prop where
  head : s.card.tdh = 0
  tail : s.card.tdt = n % NTXQ
  done : ∀ i, n ≤ i → i < NTXQ → (s.card.txq i).status &&& E1000_TXD_STAT_DD ≠ 0
  busy : ∀ i < n, (s.card.txq i).status &&& E1000_TXD_STAT_DD = 0
  idle : s.filling = none
  accepted : s.accepted = List.replicate n [0]
  wire : s.wire = []

theorem IdleCard.start (mac : Nat → BitVec 16) (d : E1000) : IdleCard 0 (Nic.start mac d) where
  head := rfl
  tail := rfl
  done := by
    intro i _ hi
    show (if i < NTXQ then _ else d.txq i : TxDesc).status &&& E1000_TXD_STAT_DD ≠ 0
    rw [if_pos hi]
    decide
  busy := by
    intro i hi
    exact absurd hi (Nat.not_lt_zero i)
  idle := rfl
  accepted := rfl
  wire := rfl

/-- Clearing `DD` clears it. -/
theorem and_not_dd (st : BitVec 8) : st &&& ~~~E1000_TXD_STAT_DD &&& E1000_TXD_STAT_DD = 0 := by
  rw [BitVec.and_assoc, show ~~~E1000_TXD_STAT_DD &&& E1000_TXD_STAT_DD = 0 by decide]
  exact BitVec.and_zero

/-- One more call, both halves. -/
theorem IdleCard.call (h : IdleCard n s) (hn : n < NTXQ) :
    ∃ s', Relation.ReflTransGen (NicStep fun _ => True) s s' ∧ IdleCard (n + 1) s' := by
  have htail : s.card.tdt = n := by rw [h.tail, Nat.mod_eq_of_lt hn]
  have hfill := @NicStep.fill (fun _ => True) s [0] (by decide) h.idle
    (show s.card.txDone by unfold E1000.txDone; rw [htail]; exact h.done n (Nat.le_refl n) hn)
    trivial
  refine ⟨_, (Relation.ReflTransGen.single hfill).tail (NicStep.accept _ [0] rfl), ?_⟩
  refine ⟨h.head, ?_, ?_, ?_, rfl, ?_, h.wire⟩
  · rw [E1000.tdt_txTail, show (s.card.txFill [0]).tdt = s.card.tdt from rfl, htail]
  · intro i hle hi
    show ((s.card.txFill [0]).txq i).status &&& E1000_TXD_STAT_DD ≠ 0
    rw [E1000.txFill, htail]
    simp only [update_of_ne (show i ≠ n by omega)]
    exact h.done i (by omega) hi
  · intro i hi
    show ((s.card.txFill [0]).txq i).status &&& E1000_TXD_STAT_DD = 0
    rw [E1000.txFill, htail]
    by_cases he : i = n
    · subst he
      simp only [update_self]
      exact and_not_dd _
    · simp only [update_of_ne he]
      exact h.busy i (by omega)
  · rw [h.accepted, List.replicate_succ']

theorem IdleCard.calls (mac : Nat → BitVec 16) (d : E1000) :
    ∀ n ≤ NTXQ, ∃ s, NicReaches (fun _ => True) mac d s ∧ IdleCard n s := by
  intro n
  induction n with
  | zero =>
    intro _
    exact ⟨_, .refl, IdleCard.start mac d⟩
  | succ n ih =>
    intro hn
    obtain ⟨s, hs, h⟩ := ih (by omega)
    obtain ⟨s', hs', h'⟩ := h.call (by omega)
    exact ⟨s', hs.trans hs', h'⟩

/-- **A full ring is lost.**  Thirty-two calls on a card that has not begun to
send are all accepted; the tail is then back on the head, the card owns nothing
and sends nothing, and the descriptor at the tail is never done again. -/
theorem tx_ring_lost :
    ∃ s, NicReaches (fun _ => True) (fun _ => 0) E1000.zero s
      ∧ s.accepted = List.replicate 32 [0] ∧ s.wire = [] ∧ s.card.txOwned = []
      ∧ s.card.tdh = s.card.tdt ∧ ¬ s.card.txDone := by
  obtain ⟨s, hs, h⟩ := IdleCard.calls (fun _ => 0) E1000.zero NTXQ le_rfl
  have htail : s.card.tdt = 0 := h.tail
  refine ⟨s, hs, h.accepted, h.wire, ?_, h.head.trans htail.symm, ?_⟩
  · rw [E1000.txOwned, h.head, htail]
    rfl
  · unfold E1000.txDone
    rw [htail]
    exact not_not.mpr (h.busy 0 (by decide))

/-! ## §6. The receive ring. -/

/-- `n` delivered packets wait from the descriptor after `RDT` on; `t` of them
(one during a call) are already marked free but not yet given back. -/
structure RxInv (n t : Nat) (s : Nic) : Prop where
  lt : n < NRXQ
  taken_le : t ≤ n
  taken_lt : t < NRXQ
  tail_lt : s.card.rdt < NRXQ
  head_eq : s.card.rdh = (s.card.rdt + 1 + n) % NRXQ
  queued : s.delivered = s.returned ++ contents s.card.rxPacket NRXQ s.card.rxIndex n
  status : ∀ i < NRXQ, (s.card.rxq i).status
    = if i ∈ cells NRXQ ((s.card.rdt + 1 + t) % NRXQ) (n - t) then 3 else 0
  taking : match s.taking with
    | none => t = 0
    | some pkt => t = 1 ∧ s.card.rxPacket s.card.rxIndex = pkt

/-- The transmit side does not touch what `RxInv` reads. -/
theorem RxInv.frame (h : RxInv n t s) (hh : s'.card.rdh = s.card.rdh)
    (ht : s'.card.regs E1000_RDT = s.card.regs E1000_RDT)
    (hp : s'.card.rxPacket = s.card.rxPacket) (hq : s'.card.rxq = s.card.rxq)
    (hd : s'.delivered = s.delivered) (hr : s'.returned = s.returned)
    (hf : s'.taking = s.taking) : RxInv n t s' := by
  have hrdt : s'.card.rdt = s.card.rdt := congrArg BitVec.toNat ht
  have hidx : s'.card.rxIndex = s.card.rxIndex := by
    rw [E1000.rxIndex_eq, E1000.rxIndex_eq, hrdt]
  refine ⟨h.lt, h.taken_le, h.taken_lt, ?_, ?_, ?_, ?_, ?_⟩
  · rw [hrdt]; exact h.tail_lt
  · rw [hh, hrdt]; exact h.head_eq
  · rw [hd, hr, hp, hidx]; exact h.queued
  · rw [hq, hrdt]; exact h.status
  · rw [hf, hp, hidx]; exact h.taking

/-- A delivery fills the descriptor after the last waiting one. -/
theorem RxInv.deliver (h : RxInv n t s)
    (hlen : pkt.length ≤ PKT_SIZE.toNat) (hne : s.card.rdh ≠ s.card.rdt) :
    RxInv (n + 1) t { s with
      card := s.card.rxDeliver pkt, delivered := s.delivered ++ [pkt] } := by
  have hlt := h.lt
  have htl := h.tail_lt
  have hle := h.taken_le
  have hroom : n + 1 < NRXQ := by
    by_contra hge
    obtain rfl : n = NRXQ - 1 := by omega
    apply hne
    rw [h.head_eq, show s.card.rdt + 1 + (NRXQ - 1) = s.card.rdt + NRXQ from rfl,
      Nat.add_mod_right, Nat.mod_eq_of_lt htl]
  have hidx := s.card.rxIndex_eq
  have hhead : s.card.rdh = (s.card.rxIndex + n) % NRXQ := by
    rw [h.head_eq, hidx, Nat.mod_add_mod]
  have hfree : s.card.rdh ∉ cells NRXQ s.card.rxIndex n := by
    rw [hhead]
    exact tail_not_mem (Nat.le_refl n) hlt
  have hold : contents (s.card.rxDeliver pkt).rxPacket NRXQ s.card.rxIndex n
      = contents s.card.rxPacket NRXQ s.card.rxIndex n := by
    rw [E1000.rxPacket_rxDeliver _ _ hlen]
    refine contents_congr fun i hi => update_of_ne ?_ _ _
    intro he
    rw [he] at hi
    exact hfree hi
  refine ⟨hroom, by omega, h.taken_lt, htl, ?_, ?_, ?_, ?_⟩
  · show (s.card.rxDeliver pkt).rdh = (s.card.rdt + 1 + (n + 1)) % NRXQ
    rw [E1000.rdh_rxDeliver, h.head_eq, Nat.mod_add_mod, Nat.add_assoc _ n 1]
  · show s.delivered ++ [pkt]
      = s.returned ++ contents (s.card.rxDeliver pkt).rxPacket NRXQ s.card.rxIndex (n + 1)
    rw [contents_push, hold, h.queued, ← hhead, E1000.rxPacket_rxDeliver _ _ hlen,
      update_self, List.append_assoc]
  · intro i hi
    have hsplit : cells NRXQ ((s.card.rdt + 1 + t) % NRXQ) (n + 1 - t)
        = cells NRXQ ((s.card.rdt + 1 + t) % NRXQ) (n - t) ++ [s.card.rdh] := by
      rw [show n + 1 - t = n - t + 1 by omega, cells_succ, h.head_eq, Nat.mod_add_mod,
        show s.card.rdt + 1 + t + (n - t) = s.card.rdt + 1 + n by omega]
    show ((s.card.rxDeliver pkt).rxq i).status
      = if i ∈ cells NRXQ ((s.card.rdt + 1 + t) % NRXQ) (n + 1 - t) then 3 else 0
    rw [hsplit]
    by_cases he : i = s.card.rdh
    · rw [if_pos (by simp [he])]
      have hst := h.status i hi
      have hcase : (s.card.rxq i).status = 3 ∨ (s.card.rxq i).status = 0 := by
        rw [hst]
        split
        · exact .inl rfl
        · exact .inr rfl
      subst he
      simp only [E1000.rxDeliver, E1000.setReg, update_self]
      rcases hcase with h3 | h0
      · rw [h3]; decide
      · rw [h0]; decide
    · simp only [E1000.rxDeliver, E1000.setReg, update_of_ne he]
      rw [h.status i hi]
      simp [he]
  · have htk := h.taking
    show match s.taking with
      | none => t = 0
      | some pkt' => t = 1 ∧ (s.card.rxDeliver pkt).rxPacket s.card.rxIndex = pkt'
    cases hs : s.taking with
    | none =>
      rw [hs] at htk
      exact htk
    | some pkt' =>
      rw [hs] at htk
      refine ⟨htk.1, ?_⟩
      -- the packet being taken is one of the waiting ones
      rw [E1000.rxPacket_rxDeliver _ _ hlen, update_of_ne ?_]
      · exact htk.2
      · intro he
        apply hfree
        rw [← he]
        exact mem_cells.mpr ⟨0, by omega, by
          rw [Nat.add_zero, Nat.mod_eq_of_lt s.card.rxIndex_lt]⟩

/-- Outside a call the descriptor after `RDT` is done just when a packet waits. -/
theorem RxInv.status_index (h : RxInv n 0 s) :
    (s.card.rxq s.card.rxIndex).status = if n = 0 then 0 else 3 := by
  rw [h.status _ s.card.rxIndex_lt, Nat.add_zero, ← s.card.rxIndex_eq, Nat.sub_zero]
  cases n with
  | zero => rfl
  | succ m => simp [cells_cons, Nat.mod_eq_of_lt s.card.rxIndex_lt]

/-- What a call finds: the oldest waiting packet, or nothing if none waits. -/
theorem RxInv.find (h : RxInv n 0 s) :
    s.card.rxFind = if n = 0 then .empty else .packet (s.card.rxPacket s.card.rxIndex) := by
  unfold E1000.rxFind
  rw [h.status_index]
  by_cases h0 : n = 0
  · rw [if_pos h0, if_pos (by decide), if_pos h0]
  · rw [if_neg h0, if_neg (by decide), if_neg (by decide), if_neg h0]

/-- The first half of a call frees the first waiting descriptor's status. -/
theorem RxInv.take (h : RxInv n 0 s) (hfind : s.card.rxFind = .packet pkt) :
    RxInv n 1 { s with card := s.card.rxClear, taking := some pkt } := by
  rw [h.find] at hfind
  have hlt := h.lt
  obtain ⟨m, rfl⟩ : ∃ m, n = m + 1 := by
    refine Nat.exists_eq_succ_of_ne_zero fun h0 => ?_
    rw [if_pos h0] at hfind
    cases hfind
  obtain rfl := E1000.RxFound.packet.inj hfind
  refine ⟨hlt, by omega, by decide, h.tail_lt, h.head_eq, ?_, ?_, rfl, ?_⟩
  · rw [E1000.rxPacket_rxClear]
    exact h.queued
  · intro i hi
    have hcells : cells NRXQ ((s.card.rdt + 1 + 0) % NRXQ) (m + 1 - 0)
        = s.card.rxIndex :: cells NRXQ ((s.card.rdt + 1 + 1) % NRXQ) (m + 1 - 1) := by
      rw [Nat.add_zero, ← s.card.rxIndex_eq, Nat.sub_zero, cells_cons,
        Nat.mod_eq_of_lt s.card.rxIndex_lt, s.card.rxIndex_eq, Nat.mod_add_mod,
        Nat.add_sub_cancel]
    have hgone : s.card.rxIndex ∉ cells NRXQ ((s.card.rdt + 1 + 1) % NRXQ) (m + 1 - 1) := by
      have := head_not_mem (N := NRXQ) (h := s.card.rxIndex) (n := m) (by omega)
      rwa [Nat.mod_eq_of_lt s.card.rxIndex_lt, s.card.rxIndex_eq, Nat.mod_add_mod,
        ← s.card.rxIndex_eq] at this
    have hst := h.status i hi
    rw [hcells] at hst
    show (s.card.rxClear.rxq i).status
      = if i ∈ cells NRXQ ((s.card.rdt + 1 + 1) % NRXQ) (m + 1 - 1) then 3 else 0
    by_cases he : i = s.card.rxIndex
    · subst he
      rw [if_pos (List.mem_cons_self ..)] at hst
      rw [if_neg hgone]
      simp only [E1000.rxClear, update_self, hst]
      decide
    · rw [E1000.rxClear]
      simp only [update_of_ne he, hst, List.mem_cons, he, false_or]
  · show s.card.rxClear.rxPacket s.card.rxIndex = s.card.rxPacket s.card.rxIndex
    rw [E1000.rxPacket_rxClear]

/-- The tail write gives the descriptor back to the card. -/
theorem RxInv.giveBack (h : RxInv n 1 s) (hpkt : s.card.rxPacket s.card.rxIndex = pkt) :
    RxInv (n - 1) 0 { s with
      card := s.card.rxTail, taking := none, returned := s.returned ++ [pkt] } := by
  have hlt := h.lt
  obtain ⟨m, rfl⟩ : ∃ m, n = m + 1 := Nat.exists_eq_succ_of_ne_zero (by
    have := h.taken_le
    omega)
  have hrdt : s.card.rxTail.rdt = s.card.rxIndex := s.card.rdt_rxTail
  have hnext : s.card.rxTail.rxIndex = (s.card.rxIndex + 1) % NRXQ := by
    rw [E1000.rxIndex_eq, hrdt]
  refine ⟨by omega, by omega, by decide, ?_, ?_, ?_, ?_, rfl⟩
  · rw [hrdt]
    exact s.card.rxIndex_lt
  · show s.card.rdh = (s.card.rxTail.rdt + 1 + (m + 1 - 1)) % NRXQ
    rw [hrdt, h.head_eq, s.card.rxIndex_eq, Nat.add_assoc (_ % NRXQ), Nat.mod_add_mod]
    congr 1
    omega
  · show s.delivered = (s.returned ++ [pkt])
      ++ contents s.card.rxPacket NRXQ s.card.rxTail.rxIndex (m + 1 - 1)
    rw [hnext, h.queued, contents_pop _ s.card.rxIndex_lt, hpkt]
    simp
  · intro i hi
    show (s.card.rxq i).status
      = if i ∈ cells NRXQ ((s.card.rxTail.rdt + 1) % NRXQ) (m + 1 - 1) then 3 else 0
    rw [h.status i hi, hrdt, s.card.rxIndex_eq, Nat.mod_add_mod]

theorem RxInv.start (mac : Nat → BitVec 16) (d : E1000) : RxInv 0 0 (Nic.start mac d) where
  lt := by decide
  taken_le := Nat.le_refl 0
  taken_lt := by decide
  tail_lt := show 127 < NRXQ by decide
  head_eq := show 0 = (127 + 1 + 0) % NRXQ by decide
  queued := rfl
  status := by
    intro i hi
    show (if i < NRXQ then _ else d.rxq i : RxDesc).status = _
    rw [if_pos hi]
    rfl
  taking := rfl

/-- **One step keeps the receive ring**, whatever the transmit side does. -/
theorem RxInv.step {ok : E1000 → Prop} (h : RxInv n t s)
    (hs : NicStep ok s s') : ∃ n' t', RxInv n' t' s' := by
  have htk := h.taking
  cases hs with
  | card hc =>
    cases hc with
    | send hne => exact ⟨n, t, h.frame rfl rfl rfl rfl rfl rfl rfl⟩
    | deliver pkt hlen hne => exact ⟨n + 1, t, h.deliver hlen hne⟩
  | fill pkt hlen hidle hdd hok => exact ⟨n, t, h.frame rfl rfl rfl rfl rfl rfl rfl⟩
  | accept pkt hpkt => exact ⟨n, t, h.frame rfl rfl rfl rfl rfl rfl rfl⟩
  | take pkt hidle hfind =>
    rw [hidle] at htk
    obtain rfl : t = 0 := htk
    exact ⟨n, 1, h.take hfind⟩
  | giveBack pkt hpkt =>
    rw [hpkt] at htk
    obtain ⟨rfl, hp⟩ := htk
    exact ⟨n - 1, 0, h.giveBack hp⟩

theorem RxInv.reached {ok : E1000 → Prop} {mac : Nat → BitVec 16} {d : E1000}
    (h : NicReaches ok mac d s) : ∃ n t, RxInv n t s := by
  induction h with
  | refl => exact ⟨0, 0, RxInv.start mac d⟩
  | tail _ hs ih =>
    obtain ⟨n, t, hn⟩ := ih
    exact hn.step hs

theorem RxInv.pending (h : RxInv n t s) :
    s.card.rxPending = contents s.card.rxPacket NRXQ s.card.rxIndex n := by
  have hhead : s.card.rdh = (s.card.rxIndex + n) % NRXQ := by
    rw [h.head_eq, s.card.rxIndex_eq, Nat.mod_add_mod]
  rw [E1000.rxPending, hhead, gap_add s.card.rxIndex_lt h.lt]

/-- **THE RECEIVE RING.**  At every moment of every interleaving the delivered
packets are, in order and byte for byte, those returned followed by those in
the descriptors the card has filled; so the card overwrites none of these.  A
call outside another one never finds a descriptor without `EOP`, finds the ring
empty only if everything delivered was returned, and otherwise finds the oldest
packet that was not. -/
theorem rx_in_order {ok : E1000 → Prop} {mac : Nat → BitVec 16} {d : E1000} {s : Nic}
    (h : NicReaches ok mac d s) :
    s.delivered = s.returned ++ s.card.rxPending
      ∧ (s.taking = none →
          (s.card.rxFind = .empty ∧ s.returned = s.delivered)
            ∨ ∃ pkt, s.card.rxFind = .packet pkt ∧ s.card.rxPending.head? = some pkt) := by
  obtain ⟨n, t, hn⟩ := RxInv.reached h
  refine ⟨hn.pending ▸ hn.queued, fun hidle => ?_⟩
  have htk := hn.taking
  rw [hidle] at htk
  obtain rfl : t = 0 := htk
  have hfind := hn.find
  have hpend := hn.pending
  have hq := hn.queued
  cases n with
  | zero => exact .inl ⟨hfind, by rw [hq, contents_zero, List.append_nil]⟩
  | succ m =>
    refine .inr ⟨_, hfind, ?_⟩
    rw [hpend, contents_pop _ s.card.rxIndex_lt]
    rfl

/-- One packet delivered and returned. -/
theorem rx_in_order_one :
    ∃ s, NicReaches (fun _ => True) (fun _ => 0) E1000.zero s
      ∧ s.delivered = [[7]] ∧ s.returned = [[7]]
      ∧ s.delivered = s.returned ++ s.card.rxPending := by
  have hdel := @NicStep.card (fun _ => True) _ _ (CardStep.deliver
    (Nic.start (fun _ => 0) E1000.zero) [7] (by decide) (show 0 ≠ 127 by decide))
  have htake := @NicStep.take (fun _ => True) { Nic.start (fun _ => 0) E1000.zero with
    card := (E1000.zero.init fun _ => 0).rxDeliver [7], delivered := [[7]] } [7] rfl (by decide)
  have hreach := (Relation.ReflTransGen.single hdel).tail htake |>.tail
    (NicStep.giveBack _ [7] rfl)
  exact ⟨_, hreach, rfl, rfl, (rx_in_order hreach).1⟩

end Jos

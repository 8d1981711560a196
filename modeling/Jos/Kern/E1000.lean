/-
  Jos.Kern.E1000 — **THE NETWORK CARD DRIVER** (`kern/e1000.c`): the transmit and receive paths
  and the interrupt handler, over the rings and registers in `Kernel.e1000`.
-/
import Jos.Kern.Sched

namespace Jos

open Exec

def PKT_SIZE : Word := 2048#32
def NTXQ : Nat := 32
def NRXQ : Nat := 128
def E1000_ICR : Nat := 0x000C0 / 4
def E1000_RDT : Nat := 0x02818 / 4
def E1000_TDT : Nat := 0x03818 / 4
def E1000_RAL : Nat := 0x05400 / 4
def E1000_RAH : Nat := 0x05404 / 4
def E1000_TXD_CMD_EOP : BitVec 8 := 0x01
def E1000_TXD_STAT_DD : BitVec 8 := 0x01
def E1000_RXD_STAT_DD : BitVec 8 := 0x01
def E1000_RXD_STAT_EOP : BitVec 8 := 0x02
def E1000_RXT0 : Word := 0x80#32

/-- Change the card's state. -/
def modifyE1000 (f : E1000 → E1000) : KM Unit :=
  modify fun s => { s with e1000 := f s.e1000 }

def E1000.setReg (d : E1000) (r : Nat) (w : Word) : E1000 :=
  { d with regs := Function.update d.regs r w }

/-- `memmove(&tx_paks[idx], pck, length)`. -/
def copyPacketIn (idx : Nat) (pck : Word) (length : Nat) : KM Unit :=
  forUp
    (fun i => do
      let b ← loadByte (pck + BitVec.ofNat 32 i)
      modifyE1000 fun d => { d with
        txPaks := Function.update d.txPaks idx (Function.update (d.txPaks idx) i b) })
    0 length

/-- `e1000_transmit(pck, length)`. -/
def e1000Transmit (pck length : Word) : KM Word := do
  if length > PKT_SIZE then
    pure (-1#32)
  else
    let d := (← get).e1000
    let idx := (d.regs E1000_TDT).toNat
    if (d.txq idx).status &&& E1000_TXD_STAT_DD = 0 then
      pure (-1#32)
    else
      copyPacketIn idx pck length.toNat
      modifyE1000 fun d => { d with
        txq := Function.update d.txq idx
          { status := (d.txq idx).status &&& ~~~E1000_TXD_STAT_DD
            cmd := (d.txq idx).cmd ||| E1000_TXD_CMD_EOP
            length := length.setWidth 16 } }
      modifyE1000 fun d => d.setReg E1000_TDT (BitVec.ofNat 32 ((idx + 1) % NTXQ))
      pure 0#32

/-- `e1000_receive(pck, length)`. -/
def e1000Receive (pck length : Word) : KM Word := do
  let d := (← get).e1000
  let index := (d.regs E1000_RDT + 1#32).toNat % NRXQ
  if (d.rxq index).status &&& E1000_RXD_STAT_DD = 0 then
    pure (-E_E1000_RXBUF_EMPTY)
  else if (d.rxq index).status &&& E1000_RXD_STAT_EOP = 0 then
    panic "e1000_receive: EOP not set"
  else
    storeWord length ((d.rxq index).length.setWidth 32)
    let n ← loadWord length
    copyOut pck (d.rxPaks index) n.toNat
    modifyE1000 fun d => { d with
      rxq := Function.update d.rxq index { d.rxq index with
        status := (d.rxq index).status &&& ~~~E1000_RXD_STAT_DD &&& ~~~E1000_RXD_STAT_EOP } }
    modifyE1000 fun d => d.setReg E1000_RDT (BitVec.ofNat 32 index)
    pure 0#32

/-- `clear_e1000_interrupt()`. -/
def clearE1000Interrupt : KM Unit :=
  modifyE1000 fun d => d.setReg E1000_ICR (d.regs E1000_ICR ||| E1000_RXT0)

/-- The last slot that waits for a packet. -/
@[irreducible] def e1000Receiver (s : Kernel) : Option Nat :=
  (List.range NENV).reverse.find? fun i => (s.envs i).envE1000WaitingRx

/-- `e1000_trap_handler()`. -/
def e1000TrapHandler : KM Unit := do
  match e1000Receiver (← get) with
  | none => clearE1000Interrupt
  | some receiver =>
    modifyEnv receiver fun env => { env with
      envStatus := .runnable, envE1000WaitingRx := false }
    clearE1000Interrupt

/-- `e1000_get_mac(mac_addr)`. -/
def e1000GetMac (macAddr : Word) : KM Unit := do
  let d := (← get).e1000
  storeWord macAddr (d.regs E1000_RAL)
  storeByte (macAddr + 4#32) (getByte (d.regs E1000_RAH) 0)
  storeByte (macAddr + 5#32) (getByte (d.regs E1000_RAH) 1)

end Jos

/-
  Jos.Ulib.Pfentry — **THE USER PAGE-FAULT UPCALL** (`page_fault_handler` in `kern/trap.c`,
  `lib/pfentry.S`).

  The kernel pushes a `struct UTrapframe` on the exception stack and starts
  `_pgfault_upcall`, which calls the handler, pushes the trap-time `eip` on the
  trap-time stack, pops the frame and returns.  User memory is flat here; what
  the kernel stores, and where, is the list of stores of its own model
  (`pageFaultHandler_stores`).

  A handler may do what it likes below its frame and fault again, to any depth.
  `upcall_transparent`: control comes back with the trap-time registers, if the
  push on the trap-time stack does not fault.  If it does, the frame of the
  second fault overwrites the first one, because `esp` then points to the
  normal stack.
-/
import Jos.Kern.Trap
import Jos.Env.Table
import Jos.Lib.FlatMem

namespace Jos

open Exec FlatMem

variable {info : FaultInfo} {n : Nat} {code : UCode} {h q q' st : UState} {utf : Word}

variable {R : UState → UState → Prop} {a c esp : Word}

/-! ## §1. What the kernel stores. -/

/-- The stores of `page_fault_handler`, in its order. -/
def utfStores (tf : Trapframe) (faultVa : Word) : List (Word × Word) :=
  let utf := utfAddr tf.tfEsp
  let regs := utf + 8#32
  [(utf, faultVa), (regs, tf.tfRegs.regEdi), (regs + 4#32, tf.tfRegs.regEsi),
    (regs + 8#32, tf.tfRegs.regEbp), (regs + 12#32, tf.tfRegs.regOesp),
    (regs + 16#32, tf.tfRegs.regEbx), (regs + 20#32, tf.tfRegs.regEdx),
    (regs + 24#32, tf.tfRegs.regEcx), (regs + 28#32, tf.tfRegs.regEax),
    (utf + 40#32, tf.tfEip), (utf + 44#32, tf.tfEflags), (utf + 48#32, tf.tfEsp),
    (utf + 4#32, tf.tfTrapno)]

/-- A list of stores through `cr3`. -/
def storeAll : List (Word × Word) → KM Unit
  | [] => pure ()
  | p :: l => do
      storeWord p.1 p.2
      storeAll l

/-- The frame is written by these stores. -/
theorem pageFaultHandler_stores (tf : Trapframe) (faultVa : Word) {s : Kernel} {e : Nat}
    (hcs : tf.tfCs &&& 1 ≠ 0) (hcur : s.curenv = some e)
    (hup : (s.envs e).envPgfaultUpcall ≠ 0#32) :
    pageFaultHandler tf faultVa s = (do
      userMemAssert e (utfAddr tf.tfEsp) sizeofUTrapframe (PTE_U ||| PTE_W)
      storeAll (utfStores tf faultVa)
      modifyEnv e fun env => { env with
        envTf := { env.envTf with
          tfEip := (s.envs e).envPgfaultUpcall, tfEsp := utfAddr tf.tfEsp } }
      envRun e : KM Unit) s := by
  unfold pageFaultHandler
  rw [if_neg hcs, bind_ok (derefCurenv_ok hcur), bind_get, if_pos hup]
  simp only [storeAll, utfStores, storeRegs, bind_assoc, pure_bind]

/-! ## §2. The upcall. -/

/-- A user environment between two instructions: registers, flat memory, and
which bytes it can write without a fault. -/
structure UState where
  regs : PushRegs
  eip : Word
  eflags : Word
  esp : Word
  mem : Mem
  writable : Word → Bool

/-- Addresses of code, and how `addl` sets the flags. -/
structure UCode where
  upcall : Word
  handler : Word
  /-- The instruction after `call *%eax`, and `pushl %eax`. -/
  ret : Word
  pushl : Word
  alu : Word → Word

/-- What a fault adds: the address, the trap number and `reg_oesp`. -/
structure FaultInfo where
  faultVa : Word
  trapno : Word
  oesp : Word

namespace UState

/-- The trap frame of a fault in this state. -/
def trapframe (st : UState) (info : FaultInfo) : Trapframe :=
  { (default : Trapframe) with
    tfRegs := { st.regs with regOesp := info.oesp }
    tfTrapno := info.trapno
    tfEip := st.eip
    tfEflags := st.eflags
    tfEsp := st.esp }

/-- The kernel's `page_fault_handler`, as the environment sees it. -/
def enterUpcall (st : UState) (code : UCode) (info : FaultInfo) : UState :=
  { st with
    mem := stores st.mem (utfStores (st.trapframe info) info.faultVa)
    esp := utfAddr st.esp
    eip := code.upcall }

def push (st : UState) (w : Word) : UState :=
  { st with esp := st.esp - 4#32, mem := wr st.mem (st.esp - 4#32) w }

/-- `pushl %esp; movl _pgfault_handler, %eax; call *%eax`. -/
def callHandler (st : UState) (code : UCode) : UState :=
  let st := st.push st.esp
  let st := { st with regs := { st.regs with regEax := code.handler } }
  { st.push code.ret with eip := code.handler }

/-- From the return of the handler up to `pushl %eax`. -/
def beforePush (st : UState) (code : UCode) : UState :=
  let st := { st with esp := st.esp + 4#32, eflags := code.alu st.eflags }
  let st := { st with regs := { st.regs with regEax := rd st.mem (st.esp + 0x28#32) } }
  let st := { st with regs := { st.regs with regEbp := st.esp } }
  { st with esp := rd st.mem (st.esp + 0x30#32), eip := code.pushl }

/-- Can `pushl` write its four bytes? -/
def canPush (st : UState) : Bool :=
  st.writable (st.esp - 4#32) && st.writable (st.esp - 3#32) && st.writable (st.esp - 2#32)
    && st.writable (st.esp - 1#32)

def popEax (st : UState) : UState :=
  { st with regs := { st.regs with regEax := rd st.mem st.esp }, esp := st.esp + 4#32 }

/-- `popal`, which skips the saved `esp`. -/
def popal (st : UState) : UState :=
  { st with
    regs := {
      regEdi := rd st.mem st.esp
      regEsi := rd st.mem (st.esp + 4#32)
      regEbp := rd st.mem (st.esp + 8#32)
      regOesp := st.regs.regOesp
      regEbx := rd st.mem (st.esp + 16#32)
      regEdx := rd st.mem (st.esp + 20#32)
      regEcx := rd st.mem (st.esp + 24#32)
      regEax := rd st.mem (st.esp + 28#32) }
    esp := st.esp + 32#32 }

def addEsp4 (st : UState) (code : UCode) : UState :=
  { st with esp := st.esp + 4#32, eflags := code.alu st.eflags }

def popfl (st : UState) : UState :=
  { st with eflags := rd st.mem st.esp, esp := st.esp + 4#32 }

def popEsp (st : UState) : UState := { st with esp := rd st.mem st.esp }

def ret (st : UState) : UState := { st with eip := rd st.mem st.esp, esp := st.esp + 4#32 }

/-- From `movl %esp, 0x30(%ebp)` to the end. -/
def finish (st : UState) (code : UCode) : UState :=
  let st := { st with mem := wr st.mem (st.regs.regEbp + 0x30#32) st.esp }
  let st := { st with esp := st.regs.regEbp }
  (((st.popEax.popEax.popal.addEsp4 code).popfl).popEsp).ret

end UState

/-- On the exception stack. -/
def OnXstack (a : Word) : Prop := UXSTACKTOP - PGSIZE ≤ a ∧ a < UXSTACKTOP

instance (a : Word) : Decidable (OnXstack a) := inferInstanceAs (Decidable (_ ∧ _))

/-- The fault happens with `esp` on the exception stack, and the next frame
and the call of the handler fit; or with `esp` on another stack, which has
nothing to do with the exception stack. -/
def Fits (esp : Word) : Prop :=
  if OnXstack esp then UXSTACKTOP - PGSIZE + 64#32 ≤ esp
  else ∀ k ∈ [1#32, 2#32, 3#32, 4#32], ¬ OnXstack (esp - k)

/-- Conditions on a run: where a `pushl %eax` starts, and where the handler of the frame at
an address faults. -/
structure UpcallCond where
  push : UState → Prop
  fault : Word → UState → Prop

/-- Any run. -/
def anyCond : UpcallCond := ⟨fun _ => True, fun _ _ => True⟩

/-- The push can be made, and the handler faults with `esp` on the exception stack, below its
frame. -/
def safeCond : UpcallCond :=
  ⟨fun q => q.canPush = true, fun utf q => OnXstack q.esp ∧ q.esp ≤ utf⟩

/-- What the handler does: steps of its own, which leave everything from its
frame up alone, and faults, which `R` resolves. -/
inductive HandlerStep (cond : UpcallCond) (R : UState → UState → Prop) (utf : Word)
    (q q' : UState) : Prop where
  | own (h : ∀ a, utf ≤ a → a < UXSTACKTOP → q'.mem a = q.mem a)
  | fault (hq : cond.fault utf q) (h : R q q')

/-- The `pushl %eax` on the trap-time stack, with or without a fault that `R`
resolves. -/
inductive Pushes (code : UCode) (R : UState → UState → Prop) (q : UState) : UState → Prop where
  | ok (h : q.canPush = true) : Pushes code R q (q.push q.regs.regEax)
  | fault {q' : UState} (h : q.canPush = false) (hr : R q q') (heip : q'.eip = code.pushl)
      (h' : q'.canPush = true) : Pushes code R q (q'.push q'.regs.regEax)

/-- From a fault in `st` to where control comes back, with faults in the
upcall nested at most `n` deep, where `cond` is met. -/
def Upcall (code : UCode) (cond : UpcallCond) : Nat → UState → UState → Prop
  | 0, _, _ => False
  | n + 1, st, st' => Fits st.esp ∧ ∃ info h q,
      Relation.ReflTransGen (HandlerStep cond (Upcall code cond n) (utfAddr st.esp))
        ((st.enterUpcall code info).callHandler code) h ∧
      h.eip = code.ret ∧ h.esp = utfAddr st.esp - 4#32 ∧ cond.push (h.beforePush code) ∧
      Pushes code (Upcall code cond n) (h.beforePush code) q ∧ st' = q.finish code

/-- The same registers, `eip`, `eflags` and `esp`. -/
def SameRegs (st st' : UState) : Prop :=
  st'.regs = { st.regs with regOesp := st'.regs.regOesp } ∧ st'.eip = st.eip ∧
    st'.eflags = st.eflags ∧ st'.esp = st.esp

/-! ## §3. Addresses. -/

theorem onXstack_iff (a : Word) : OnXstack a ↔ 0xEEBFF000 ≤ a.toNat ∧ a.toNat < 0xEEC00000 := by
  unfold OnXstack
  rw [BitVec.le_def, BitVec.lt_def, show (UXSTACKTOP - PGSIZE).toNat = 0xEEBFF000 by decide,
    show UXSTACKTOP.toNat = 0xEEC00000 by decide]

theorem not_onXstack_of (h : a.toNat < 0xEEBFF000) : ¬ OnXstack a := by
  rw [onXstack_iff]
  omega

theorem utfAddr_eq (esp : Word) :
    utfAddr esp = if OnXstack esp then esp - 56#32 else 0xEEBFFFCC#32 := by
  have hiff : (UXSTACKTOP - PGSIZE ≤ esp ∧ esp ≤ UXSTACKTOP - 1#32) ↔ OnXstack esp := by
    rw [onXstack_iff, BitVec.le_def, BitVec.le_def,
      show (UXSTACKTOP - PGSIZE).toNat = 0xEEBFF000 by decide,
      show (UXSTACKTOP - 1#32).toNat = 0xEEBFFFFF by decide]
    omega
  unfold utfAddr
  rw [if_congr hiff rfl rfl]
  split
  · unfold sizeofUTrapframe
    bv_omega
  · decide

/-- The frame, and two words below it, are on the exception stack. -/
theorem utfAddr_room (h : Fits esp) :
    0xEEBFF008 ≤ (utfAddr esp).toNat ∧ (utfAddr esp).toNat + 52 ≤ 0xEEC00000 := by
  rw [utfAddr_eq]
  unfold Fits at h
  by_cases hx : OnXstack esp
  · rw [if_pos hx] at h ⊢
    rw [BitVec.le_def, show (UXSTACKTOP - PGSIZE + 64#32).toNat = 0xEEBFF040 by decide] at h
    rw [onXstack_iff] at hx
    rw [BitVec.toNat_sub, BitVec.toNat_ofNat]
    omega
  · rw [if_neg hx]
    decide

/-- The word below the trap-time `esp` is no word of the frame. -/
theorem push_apart (h : Fits esp) (hc : c.toNat ≤ 48) : Apart (esp - 4#32) (utfAddr esp + c) := by
  rw [utfAddr_eq]
  unfold Fits at h
  by_cases hx : OnXstack esp
  · rw [if_pos hx]
    have hbase : esp - 4#32 = esp - 56#32 + 52#32 := by bv_omega
    rw [hbase]
    refine apart_add ⟨?_, ?_⟩
    · rw [BitVec.toNat_sub, BitVec.toNat_ofNat]
      omega
    · rw [BitVec.toNat_sub, BitVec.toNat_ofNat]
      omega
  · rw [if_neg hx] at h ⊢
    have h1 := h 1#32 (by simp)
    have h2 := h 2#32 (by simp)
    have h3 := h 3#32 (by simp)
    have h4 := h 4#32 (by simp)
    rw [onXstack_iff, BitVec.toNat_sub, BitVec.toNat_ofNat] at h1 h2 h3 h4
    refine ⟨?_, ?_⟩
    · rw [BitVec.toNat_sub, BitVec.toNat_add, BitVec.toNat_sub, BitVec.toNat_ofNat,
        BitVec.toNat_ofNat]
      omega
    · rw [BitVec.toNat_sub, BitVec.toNat_add, BitVec.toNat_sub, BitVec.toNat_ofNat,
        BitVec.toNat_ofNat]
      omega

/-! ## §4. The frame. -/

/-- The frame as offsets and words. -/
def utfWords (tf : Trapframe) (faultVa : Word) : List (Word × Word) :=
  [(0#32, faultVa), (8#32, tf.tfRegs.regEdi), (12#32, tf.tfRegs.regEsi),
    (16#32, tf.tfRegs.regEbp), (20#32, tf.tfRegs.regOesp), (24#32, tf.tfRegs.regEbx),
    (28#32, tf.tfRegs.regEdx), (32#32, tf.tfRegs.regEcx), (36#32, tf.tfRegs.regEax),
    (40#32, tf.tfEip), (44#32, tf.tfEflags), (48#32, tf.tfEsp), (4#32, tf.tfTrapno)]

theorem utfWords_le (tf : Trapframe) (faultVa : Word) :
    ∀ p ∈ utfWords tf faultVa, p.1.toNat ≤ 48 := by
  simp [utfWords]

theorem utfStores_eq (tf : Trapframe) (faultVa : Word) :
    utfStores tf faultVa
      = (utfWords tf faultVa).map fun p => (utfAddr tf.tfEsp + p.1, p.2) := by
  simp [utfStores, utfWords, BitVec.add_assoc]

/-- Each word of the frame is where it was stored. -/
theorem rd_utfStores (m : Mem) (tf : Trapframe) (faultVa : Word) {c w : Word}
    (h : (c, w) ∈ utfWords tf faultVa) :
    rd (stores m (utfStores tf faultVa)) (utfAddr tf.tfEsp + c) = w := by
  have happart : (utfWords tf faultVa).Pairwise fun p q => Apart p.1 q.1 := by
    simp [utfWords, Apart]
  have hpair : (utfStores tf faultVa).Pairwise fun p q => Apart p.1 q.1 := by
    rw [utfStores_eq, List.pairwise_map]
    exact happart.imp apart_add
  refine rd_stores hpair (p := (utfAddr tf.tfEsp + c, w)) ?_
  rw [utfStores_eq]
  exact List.mem_map.mpr ⟨(c, w), h, rfl⟩

/-- The stores change nothing above the frame. -/
theorem utfStores_above (m : Mem) (tf : Trapframe) (faultVa : Word)
    (h : 52 ≤ (a - utfAddr tf.tfEsp).toNat) : stores m (utfStores tf faultVa) a = m a := by
  refine stores_of_far fun p hp => ?_
  rw [utfStores_eq] at hp
  obtain ⟨⟨c, w⟩, hc, rfl⟩ := List.mem_map.mp hp
  have hc48 : c.toNat ≤ 48 := utfWords_le _ _ _ hc
  have hsub : a - (utfAddr tf.tfEsp + c) = a - utfAddr tf.tfEsp - c := by bv_omega
  rw [hsub, BitVec.toNat_sub]
  omega

/-! ## §5. Above the frame nothing changes while the handler runs. -/

/-- The same bytes from `lo` to the top of the exception stack. -/
def SameFrom (lo : Word) (m m' : Mem) : Prop :=
  ∀ a, lo ≤ a → a < UXSTACKTOP → m' a = m a

theorem SameFrom.trans {lo : Word} {m m' m'' : Mem} (h : SameFrom lo m m')
    (h' : SameFrom lo m' m'') : SameFrom lo m m'' :=
  fun a hlo hhi => (h' a hlo hhi).trans (h a hlo hhi)

/-- The return address and the argument of the handler are below the frame. -/
theorem callHandler_sameFrom (st : UState) (code : UCode) (hesp : 8 ≤ st.esp.toNat) :
    SameFrom st.esp st.mem (st.callHandler code).mem := by
  intro a hlo _
  have ha := a.isLt
  rw [BitVec.le_def] at hlo
  show wr (wr st.mem (st.esp - 4#32) st.esp) (st.esp - 4#32 - 4#32) code.ret a = st.mem a
  rw [wr_of_far, wr_of_far]
  · rw [BitVec.toNat_sub, BitVec.toNat_sub, BitVec.toNat_ofNat]
    omega
  · rw [BitVec.toNat_sub, BitVec.toNat_sub, BitVec.toNat_sub, BitVec.toNat_ofNat]
    omega

/-- What a resolved fault keeps: the registers, and the exception stack above
the `esp` of the fault. -/
def Transparent (R : UState → UState → Prop) : Prop :=
  ∀ st st', R st st' → SameRegs st st' ∧ (OnXstack st.esp → SameFrom st.esp st.mem st'.mem)

theorem handlerStep_sameFrom (hR : Transparent R) (h : HandlerStep safeCond R utf q q') :
    SameFrom utf q.mem q'.mem := by
  cases h with
  | own h => exact h
  | fault hq h =>
    intro a hlo hhi
    exact (hR q q' h).2 hq.1 a (BitVec.le_trans hq.2 hlo) hhi

/-- **A whole run of the handler keeps its frame.** -/
theorem handler_sameFrom (hR : Transparent R)
    (h : Relation.ReflTransGen (HandlerStep safeCond R utf) q q') :
    SameFrom utf q.mem q'.mem := by
  induction h with
  | refl => exact fun _ _ _ => rfl
  | tail _ hstep ih => exact ih.trans (handlerStep_sameFrom hR hstep)

/-! ## §6. The upcall is transparent. -/

/-- The frame when the handler has returned: every word as the kernel stored
it, and above it what was there at the fault. -/
theorem frame_after_handler (hR : Transparent R) (hfit : Fits st.esp)
    (hrun : Relation.ReflTransGen (HandlerStep safeCond R (utfAddr st.esp))
      ((st.enterUpcall code info).callHandler code) h) :
    (∀ c w, (c, w) ∈ utfWords (st.trapframe info) info.faultVa →
      rd h.mem (utfAddr st.esp + c) = w) ∧
    ∀ a, 52 ≤ (a - utfAddr st.esp).toNat → utfAddr st.esp ≤ a → a < UXSTACKTOP →
      h.mem a = st.mem a := by
  have hroom := utfAddr_room hfit
  have hsame : SameFrom (utfAddr st.esp) (st.enterUpcall code info).mem h.mem :=
    (callHandler_sameFrom (st.enterUpcall code info) code
      (show 8 ≤ (utfAddr st.esp).toNat by omega)).trans (handler_sameFrom hR hrun)
  refine ⟨fun c w hcw => ?_, fun a ha hlo hhi => ?_⟩
  · have hc48 : c.toNat ≤ 48 := utfWords_le _ _ _ hcw
    have hword : rd h.mem (utfAddr st.esp + c)
        = rd (st.enterUpcall code info).mem (utfAddr st.esp + c) := by
      refine rd_congr fun k hk => hsame _ ?_ ?_
      · rw [BitVec.le_def, BitVec.toNat_add, BitVec.toNat_add]
        omega
      · rw [BitVec.lt_def, BitVec.toNat_add, BitVec.toNat_add,
          show UXSTACKTOP.toNat = 0xEEC00000 by decide]
        omega
    rw [hword]
    exact rd_utfStores st.mem (st.trapframe info) info.faultVa hcw
  · rw [hsame a hlo hhi]
    exact utfStores_above st.mem (st.trapframe info) info.faultVa ha

/-- The end of the upcall, from the push on: the registers come from the
frame at `utf`, `esp` and `eip` from the trap-time stack. -/
theorem finish_pops (code : UCode) {utf T : Word} (hebp : q.regs.regEbp = utf)
    (hesp : q.esp = T) (hfar : ∀ c : Word, c.toNat ≤ 48 → Apart (T - 4#32) (utf + c)) :
    let st' := (q.push q.regs.regEax).finish code
    st'.regs = { regEdi := rd q.mem (utf + 8#32), regEsi := rd q.mem (utf + 12#32)
                 regEbp := rd q.mem (utf + 16#32), regOesp := q.regs.regOesp
                 regEbx := rd q.mem (utf + 24#32), regEdx := rd q.mem (utf + 28#32)
                 regEcx := rd q.mem (utf + 32#32), regEax := rd q.mem (utf + 36#32) } ∧
      st'.eflags = rd q.mem (utf + 44#32) ∧ st'.esp = T ∧ st'.eip = q.regs.regEax ∧
      st'.mem = wr (wr q.mem (T - 4#32) q.regs.regEax) (utf + 48#32) (T - 4#32) := by
  subst hebp hesp
  intro st'
  generalize hm : wr (wr q.mem (q.esp - 4#32) q.regs.regEax) (q.regs.regEbp + 48#32)
    (q.esp - 4#32) = m
  -- A word of the frame other than the saved esp is not touched by the two stores.
  have hword : ∀ c : Word, c.toNat ≤ 44 → Apart 48#32 c →
      rd m (q.regs.regEbp + c) = rd q.mem (q.regs.regEbp + c) := by
    intro c hc hap
    rw [← hm, rd_wr_of_apart (apart_add hap), rd_wr_of_apart (hfar c (by omega))]
  have hsaved : rd m (q.regs.regEbp + 48#32) = q.esp - 4#32 := by
    rw [← hm, rd_wr_self]
  have hret : rd m (q.esp - 4#32) = q.regs.regEax := by
    rw [← hm, rd_wr_of_apart (hfar 48#32 (by decide)).symm, rd_wr_self]
  have hst' : st' = (((({ q.push q.regs.regEax with mem := m, esp := q.regs.regEbp
      : UState}.popEax.popEax.popal.addEsp4 code).popfl).popEsp).ret) := by
    rw [← hm]
    rfl
  rw [hst']
  refine ⟨?_, ?_, ?_, ?_, rfl⟩ <;>
    simp only [UState.ret, UState.popEsp, UState.popfl, UState.addEsp4, UState.popal,
      UState.popEax, UState.push, BitVec.add_assoc, BitVec.reduceAdd]
  · rw [hword _ (by decide) (by decide), hword _ (by decide) (by decide),
      hword _ (by decide) (by decide), hword _ (by decide) (by decide),
      hword _ (by decide) (by decide), hword _ (by decide) (by decide),
      hword _ (by decide) (by decide)]
  · exact hword _ (by decide) (by decide)
  · rw [hsaved, BitVec.sub_add_cancel]
  · rw [hsaved, hret]

/-- The state before the push: the trap-time `eip` and `esp`, and the frame. -/
theorem beforePush_trap (hR : Transparent R) (hfit : Fits st.esp)
    (hrun : Relation.ReflTransGen (HandlerStep safeCond R (utfAddr st.esp))
      ((st.enterUpcall code info).callHandler code) h) (hesp : h.esp = utfAddr st.esp - 4#32) :
    (h.beforePush code).regs.regEbp = utfAddr st.esp ∧
      (h.beforePush code).regs.regEax = st.eip ∧ (h.beforePush code).esp = st.esp := by
  obtain ⟨hframe, -⟩ := frame_after_handler hR hfit hrun
  have hbase : h.esp + 4#32 = utfAddr st.esp := by rw [hesp, BitVec.sub_add_cancel]
  refine ⟨hbase, ?_, ?_⟩
  · show rd h.mem (h.esp + 4#32 + 0x28#32) = st.eip
    rw [hbase]
    exact hframe _ _ (by simp [utfWords, UState.trapframe])
  · show rd h.mem (h.esp + 4#32 + 0x30#32) = st.esp
    rw [hbase]
    exact hframe _ _ (by simp [utfWords, UState.trapframe])

/-- One level: if faults one level down are transparent, so is a fault whose
push goes through. -/
theorem upcall_succ_transparent (ih : Transparent (Upcall code safeCond n)) :
    Transparent (Upcall code safeCond (n + 1)) := by
  rintro st st' ⟨hfit, info, h, q, hrun, -, hesp, hpre, hpush, rfl⟩
  obtain ⟨hframe, habove⟩ := frame_after_handler ih hfit hrun
  have hword : ∀ c w, (c, w) ∈ utfWords (st.trapframe info) info.faultVa →
      rd (h.beforePush code).mem (utfAddr st.esp + c) = w := hframe
  obtain ⟨hebp, heax, htrap⟩ := beforePush_trap ih hfit hrun hesp
  cases hpush with
  | fault hcan => exact absurd (hcan.symm.trans hpre) Bool.false_ne_true
  | ok _ =>
    obtain ⟨hregs, hflags, hesp', heip, hmem⟩ :=
      finish_pops code hebp htrap (fun c hc => push_apart hfit hc)
    refine ⟨⟨?_, heip.trans heax, ?_, hesp'⟩, fun hx a hlo hhi => ?_⟩
    · rw [hregs, hword 8#32 st.regs.regEdi (by simp [utfWords, UState.trapframe]),
        hword 12#32 st.regs.regEsi (by simp [utfWords, UState.trapframe]),
        hword 16#32 st.regs.regEbp (by simp [utfWords, UState.trapframe]),
        hword 24#32 st.regs.regEbx (by simp [utfWords, UState.trapframe]),
        hword 28#32 st.regs.regEdx (by simp [utfWords, UState.trapframe]),
        hword 32#32 st.regs.regEcx (by simp [utfWords, UState.trapframe]),
        hword 36#32 st.regs.regEax (by simp [utfWords, UState.trapframe])]
    · rw [hflags]
      exact hword _ _ (by simp [utfWords, UState.trapframe])
    · -- On the exception stack the trap-time esp is 56 above the frame.
      have hutf : utfAddr st.esp = st.esp - 56#32 := by rw [utfAddr_eq, if_pos hx]
      have hroom := utfAddr_room hfit
      rw [onXstack_iff] at hx
      rw [BitVec.le_def] at hlo
      rw [hmem, wr_of_far, wr_of_far]
      · refine habove a ?_ ?_ ?_
        · rw [hutf, BitVec.toNat_sub, BitVec.toNat_sub, BitVec.toNat_ofNat]
          omega
        · rw [hutf, BitVec.le_def, BitVec.toNat_sub, BitVec.toNat_ofNat]
          omega
        · exact hhi
      · rw [BitVec.toNat_sub, BitVec.toNat_sub, BitVec.toNat_ofNat]
        omega
      · rw [hutf, BitVec.toNat_sub, BitVec.toNat_add, BitVec.toNat_sub, BitVec.toNat_ofNat,
          BitVec.toNat_ofNat]
        omega

theorem upcall_levels (code : UCode) (n : Nat) :
    Transparent (Upcall code safeCond n) := by
  induction n with
  | zero => exact fun _ _ h => h.elim
  | succ n ih => exact upcall_succ_transparent ih

/-- **The upcall is transparent when the push on the trap-time stack does not
fault** and a handler faults on the exception stack only.  However deep the faults in the handler nest, each comes back with
the registers, `eip`, `eflags` and `esp` of the state that faulted. -/
theorem upcall_transparent (code : UCode) (n : Nat) {st st' : UState}
    (h : Upcall code safeCond n st st') : SameRegs st st' :=
  (upcall_levels code n st st' h).1

/-- A handler that returns at once, after which the bytes in `writable` can be
written. -/
def UState.handlerReturns (q : UState) (code : UCode) (utf : Word) (writable : Word → Bool) :
    UState :=
  { q with eip := code.ret, esp := utf - 4#32, writable }

/-- An environment whose stack page is copy-on-write and that faults on
another page. -/
def cowStackState : UState where
  regs := { (default : PushRegs) with regEax := 7#32 }
  eip := 0x800020#32
  eflags := 0x202#32
  esp := 0xEEBFDF00#32
  mem := fun _ => 0#8
  writable := fun a => decide (a < 0xEEBFD000#32 ∨ 0xEEBFE000#32 ≤ a)

def upcallCode : UCode where
  upcall := 0x800100#32
  handler := 0x800200#32
  ret := 0x800110#32
  pushl := 0x800120#32
  alu := id

theorem cowStackState_fits : Fits cowStackState.esp := by
  unfold Fits
  intro k hk
  simp only [List.mem_cons, List.not_mem_nil, or_false] at hk
  rcases hk with rfl | rfl | rfl | rfl
  · exact not_onXstack_of (by decide)
  · exact not_onXstack_of (by decide)
  · exact not_onXstack_of (by decide)
  · exact not_onXstack_of (by decide)

/-- With a writable stack the fault is transparent. -/
theorem upcall_transparent_writable_stack :
    let st := { cowStackState with writable := fun _ => true }
    let h := ((st.enterUpcall upcallCode ⟨0x800000#32, 14#32, 0#32⟩).callHandler
      upcallCode).handlerReturns upcallCode (utfAddr st.esp) fun _ => true
    let q := h.beforePush upcallCode
    SameRegs st ((q.push q.regs.regEax).finish upcallCode) := by
  intro st h q
  have hcan : q.canPush = true := rfl
  exact upcall_transparent upcallCode 1 ⟨cowStackState_fits, ⟨0x800000#32, 14#32, 0#32⟩, h, _,
    .single (.own fun _ _ _ => rfl), rfl, rfl, hcan, .ok hcan, rfl⟩

/-! ## §7. A push that faults. -/

theorem Upcall.any : ∀ {st st' : UState}, Upcall code safeCond n st st' →
    Upcall code anyCond n st st' := by
  induction n with
  | zero => exact fun h => h.elim
  | succ n ih =>
    rintro st st' ⟨hfit, info, h, q, hrun, heip, hesp, hp, hpush, hq⟩
    refine ⟨hfit, info, h, q, Relation.ReflTransGen.mono (fun a b hab => ?_) _ _ hrun, heip,
      hesp, trivial, ?_, hq⟩
    · cases hab with
      | own hown => exact .own hown
      | fault _ hR => exact .fault trivial (ih hR)
    · cases hpush with
      | ok hcan => exact .ok hcan
      | fault hcan hR hip hcan' => exact .fault hcan (ih hR) hip hcan'

/-- The frame that an upcall leaves behind on the exception stack. -/
theorem upcall_leaves_eax {st st' : UState} (h : Upcall code safeCond n st st') :
    rd st'.mem (utfAddr st.esp + 36#32) = st.regs.regEax := by
  cases n with
  | zero => exact h.elim
  | succ n =>
    obtain ⟨hfit, info, h, q, hrun, -, hesp, hpre, hpush, rfl⟩ := h
    obtain ⟨hframe, -⟩ := frame_after_handler (upcall_levels code n) hfit hrun
    obtain ⟨hebp, heax, htrap⟩ := beforePush_trap (upcall_levels code n) hfit hrun hesp
    cases hpush with
    | fault hcan => exact absurd (hcan.symm.trans hpre) Bool.false_ne_true
    | ok _ =>
      obtain ⟨-, -, -, -, hmem⟩ :=
        finish_pops code hebp htrap (fun c hc => push_apart hfit hc)
      rw [hmem, rd_wr_of_apart (apart_add (by decide)),
        rd_wr_of_apart (push_apart hfit (by decide))]
      exact hframe _ _ (by simp [utfWords, UState.trapframe])

/-- **A push that faults destroys the frame**: `esp` is the trap-time `esp`
again, so the second frame lies where the first one is, and the program gets
the trap-time `eip` in its `eax`. -/
theorem pushFault_eax (hfit : Fits st.esp) (hrun : Relation.ReflTransGen
      (HandlerStep safeCond (Upcall code safeCond n) (utfAddr st.esp))
      ((st.enterUpcall code info).callHandler code) h)
    (hesp : h.esp = utfAddr st.esp - 4#32)
    (hfault : Upcall code safeCond n (h.beforePush code) q') :
    ((q'.push q'.regs.regEax).finish code).regs.regEax = st.eip := by
  obtain ⟨hebp, heax, htrap⟩ := beforePush_trap (upcall_levels code n) hfit hrun hesp
  obtain ⟨⟨hregs, -, -, hesp'⟩, -⟩ := upcall_levels code n _ _ hfault
  have hebp' : q'.regs.regEbp = utfAddr st.esp := by
    rw [hregs]
    exact hebp
  obtain ⟨hpop, -⟩ :=
    finish_pops code hebp' (hesp'.trans htrap) (fun c hc => push_apart hfit hc)
  have hleft := upcall_leaves_eax hfault
  rw [htrap, heax] at hleft
  rw [hpop]
  exact hleft

/-- `cowStackState` faults a second time, at the push, and comes back with its
`eip` in `eax`. -/
theorem upcall_push_fault_clobbers :
    ∃ st', Upcall upcallCode anyCond 2 cowStackState st' ∧
      cowStackState.regs.regEax = 7#32 ∧ st'.regs.regEax = cowStackState.eip ∧
      ¬ SameRegs cowStackState st' := by
  let info : FaultInfo := ⟨0x800000#32, 14#32, 0#32⟩
  let h := ((cowStackState.enterUpcall upcallCode info).callHandler upcallCode).handlerReturns
    upcallCode (utfAddr cowStackState.esp) cowStackState.writable
  let q := h.beforePush upcallCode
  let h' := ((q.enterUpcall upcallCode info).callHandler upcallCode).handlerReturns
    upcallCode (utfAddr q.esp) fun _ => true
  let q' := (((h'.beforePush upcallCode).push (h'.beforePush upcallCode).regs.regEax).finish
    upcallCode)
  have hrun : Relation.ReflTransGen
      (HandlerStep safeCond (Upcall upcallCode safeCond 1) (utfAddr cowStackState.esp))
      ((cowStackState.enterUpcall upcallCode info).callHandler upcallCode) h :=
    .single (.own fun _ _ _ => rfl)
  obtain ⟨-, -, htrap⟩ :=
    beforePush_trap (upcall_levels upcallCode 1) cowStackState_fits hrun rfl
  have hfits : Fits q.esp := by
    rw [show q.esp = cowStackState.esp from htrap]
    exact cowStackState_fits
  have hcan' : (h'.beforePush upcallCode).canPush = true := rfl
  have hinner : Upcall upcallCode safeCond 1 q q' :=
    ⟨hfits, info, h', _, .single (.own fun _ _ _ => rfl), rfl, rfl, hcan', .ok hcan', rfl⟩
  have hcan : q.canPush = false := by
    have hw : q.writable = cowStackState.writable := rfl
    unfold UState.canPush
    rw [hw, show q.esp = cowStackState.esp from htrap]
    simp [cowStackState]
  have heip : q'.eip = upcallCode.pushl := (upcall_levels upcallCode 1 q q' hinner).1.2.1
  have heax := pushFault_eax cowStackState_fits hrun rfl hinner
  refine ⟨(q'.push q'.regs.regEax).finish upcallCode, ⟨cowStackState_fits, info, h, _,
    .single (.own fun _ _ _ => rfl), rfl, rfl, trivial,
    .fault hcan (hinner.any) heip rfl, rfl⟩, rfl, heax, fun hsame => ?_⟩
  have hregs := congrArg PushRegs.regEax hsame.1
  exact absurd hregs (by decide)

end Jos

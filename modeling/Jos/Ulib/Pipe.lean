/-
  Jos.Ulib.Pipe — **PIPES** (`lib/pipe.c`): `devpipe_read` and `devpipe_write` as two programs
  that share a `struct Pipe`, one load or store a step.

  The reader tests `p_rpos == p_wpos`, loads `p_rpos`, the byte, `p_rpos` again
  and stores it incremented; the writer does the same with `p_wpos`.  C leaves
  the order of the two loads of a comparison open, so each test may load either
  position first.  `_pipeisclosed` compares the reference counts of two pages,
  which other environments may map and unmap between the two loads.

  Ghost components record the bytes passed to the writes, those that went into
  the pipe, those the reads returned, and each return value beside the distance
  the position moved during the call.
-/
import Jos.Kern.State

namespace Jos

variable {k r : Nat} {pc : PipePc}

/-! ## §1. The two programs. -/

def PIPEBUFSIZ : Word := 32#32

abbrev Byte := BitVec 8

/-- `struct Pipe`. -/
structure Pipe where
  pRpos : Word
  pWpos : Word
  pBuf : Nat → Byte

/-- `pos % PIPEBUFSIZ`, a remainder of `int`s. -/
def pipeIndex (pos : Word) : Nat := (pos.srem PIPEBUFSIZ).toNat

/-- Where an end is in its call. -/
inductive PipePc where
  | idle
  /-- The test of the `for` loop. -/
  | head
  /-- The test of the `while` loop: nothing loaded, own position loaded, the
  other one loaded. -/
  | test
  | testOwn (pos : Word)
  | testOther (pos : Word)
  /-- The body of the `while` loop. -/
  | blocked
  /-- In `_pipeisclosed`: `env_runs` and `pageref(fd)` are loaded. -/
  | closing (runs n : Nat)
  /-- Own position is loaded for the index, then the byte is moved. -/
  | index
  | move (pos : Word)
  /-- Own position is incremented. -/
  | incLoad
  | incStore (pos : Word)
  /-- The end has been closed. -/
  | gone
  deriving DecidableEq

/-- A call of `devpipe_read`: its length, `i`, the bytes in `buf`, and, ghost,
the position at its start. -/
structure Reader where
  pc : PipePc
  n : Nat
  i : Nat
  buf : List Byte
  start : Word

/-- A call of `devpipe_write`. -/
structure Writer where
  pc : PipePc
  buf : List Byte
  i : Nat
  start : Word

/-- The pages of a pipe: those of its two descriptors, and the one with `struct Pipe`. -/
inductive PipePage where
  | rfd
  | wfd
  | pipe
  deriving DecidableEq

structure PipeSys where
  pipe : Pipe
  rd : Reader
  wr : Writer
  /-- `pageref`: the mappings of each page, in all environments. -/
  refs : PipePage → Nat
  /-- `env_runs` of the reader and of the writer. -/
  rdRuns : Nat
  wrRuns : Nat
  /-- Ghost: all bytes passed to the writes. -/
  passed : List Byte
  /-- Ghost: the bytes the writer has put into the pipe. -/
  sent : List Byte
  /-- Ghost: all bytes the reads returned. -/
  returned : List Byte
  /-- Ghost: return values, with the distance the position moved. -/
  rets : List (Nat × Word)

def PipeSys.setRd (s : PipeSys) (pc : PipePc) : PipeSys := { s with rd := { s.rd with pc := pc } }

def PipeSys.setWr (s : PipeSys) (pc : PipePc) : PipeSys := { s with wr := { s.wr with pc := pc } }

/-- `devpipe_read` returns `r`. -/
def PipeSys.readReturns (s : PipeSys) (r : Nat) : PipeSys :=
  { s with
    rd := { s.rd with pc := .idle, i := 0, buf := [] }
    returned := s.returned ++ s.rd.buf
    rets := s.rets ++ [(r, s.pipe.pRpos - s.rd.start)] }

/-- `devpipe_write` returns `r`. -/
def PipeSys.writeReturns (s : PipeSys) (r : Nat) : PipeSys :=
  { s with
    wr := { s.wr with pc := .idle, i := 0, buf := [] }
    rets := s.rets ++ [(r, s.pipe.pWpos - s.wr.start)] }

/-- One step of `devpipe_read`; `swap` loads `p_wpos` first in a test. -/
def devpipeRead (swap : Bool) (s : PipeSys) : PipeSys :=
  match s.rd.pc with
  | .idle | .gone => s
  | .head => if s.rd.i < s.rd.n then s.setRd .test else s.readReturns s.rd.i
  | .test => s.setRd (if swap then .testOther s.pipe.pWpos else .testOwn s.pipe.pRpos)
  | .testOwn r => s.setRd (if r = s.pipe.pWpos then .blocked else .index)
  | .testOther w => s.setRd (if s.pipe.pRpos = w then .blocked else .index)
  | .blocked =>
    if s.rd.i > 0 then s.readReturns s.rd.i else s.setRd (.closing s.rdRuns (s.refs .rfd))
  | .closing runs n =>
    if runs = s.rdRuns then
      -- `_pipeisclosed` returns: all the writers are gone, or not
      if n = s.refs .pipe then s.readReturns 0 else s.setRd .test
    else s.setRd .blocked
  | .index => s.setRd (.move s.pipe.pRpos)
  | .move r =>
    { s with rd := { s.rd with pc := .incLoad, buf := s.rd.buf ++ [s.pipe.pBuf (pipeIndex r)] } }
  | .incLoad => s.setRd (.incStore s.pipe.pRpos)
  | .incStore r =>
    { s with pipe := { s.pipe with pRpos := r + 1#32 }
             rd := { s.rd with pc := .head, i := s.rd.i + 1 } }

/-- One step of `devpipe_write`; `swap` loads `p_rpos` first in a test. -/
def devpipeWrite (swap : Bool) (s : PipeSys) : PipeSys :=
  match s.wr.pc with
  | .idle | .gone => s
  | .head => if s.wr.i < s.wr.buf.length then s.setWr .test else s.writeReturns s.wr.i
  | .test => s.setWr (if swap then .testOther s.pipe.pRpos else .testOwn s.pipe.pWpos)
  | .testOwn w => s.setWr (if w ≥ s.pipe.pRpos + PIPEBUFSIZ then .blocked else .index)
  | .testOther r => s.setWr (if s.pipe.pWpos ≥ r + PIPEBUFSIZ then .blocked else .index)
  | .blocked => s.setWr (.closing s.wrRuns (s.refs .wfd))
  | .closing runs n =>
    if runs = s.wrRuns then
      -- `_pipeisclosed` returns: all the readers are gone, or not
      if n = s.refs .pipe then s.writeReturns 0 else s.setWr .test
    else s.setWr .blocked
  | .index => s.setWr (.move s.pipe.pWpos)
  | .move w =>
    { s.setWr .incLoad with pipe := { s.pipe with
        pBuf := Function.update s.pipe.pBuf (pipeIndex w) (s.wr.buf.getD s.wr.i 0) } }
  | .incLoad => s.setWr (.incStore s.pipe.pWpos)
  | .incStore w =>
    { s with pipe := { s.pipe with pWpos := w + 1#32 }
             wr := { s.wr with pc := .head, i := s.wr.i + 1 }
             sent := s.sent ++ [s.wr.buf.getD s.wr.i 0] }

/-- What can happen next: a call, a step of a call, the end of an end; an environment maps or
unmaps a page; or the kernel runs the reader or the writer again. -/
inductive PipeAct where
  | read (n : Nat)
  | readStep (swap : Bool)
  | readClose
  | write (buf : List Byte)
  | writeStep (swap : Bool)
  | writeClose
  | map (p : PipePage)
  | unmap (p : PipePage)
  | readRuns
  | writeRuns

def PipeSys.step (s : PipeSys) : PipeAct → PipeSys
  | .read n =>
    if s.rd.pc = .idle then { s with rd := ⟨.head, n, 0, [], s.pipe.pRpos⟩ } else s
  | .readStep swap => devpipeRead swap s
  | .readClose => s.setRd .gone
  | .write buf =>
    if s.wr.pc = .idle then
      { s with wr := ⟨.head, buf, 0, s.pipe.pWpos⟩, passed := s.passed ++ buf }
    else s
  | .writeStep swap => devpipeWrite swap s
  | .writeClose => s.setWr .gone
  | .map p => { s with refs := Function.update s.refs p (s.refs p + 1) }
  | .unmap p => { s with refs := Function.update s.refs p (s.refs p - 1) }
  | .readRuns => { s with rdRuns := s.rdRuns + 1 }
  | .writeRuns => { s with wrRuns := s.wrRuns + 1 }

/-- A new pipe, in a page of zeros, which is mapped beside each descriptor. -/
def PipeSys.init : PipeSys where
  pipe := ⟨0#32, 0#32, fun _ => 0⟩
  rd := ⟨.idle, 0, 0, [], 0#32⟩
  wr := ⟨.idle, [], 0, 0#32⟩
  refs p := if p = .pipe then 2 else 1
  rdRuns := 0
  wrRuns := 0
  passed := []
  sent := []
  returned := []
  rets := []

def PipeSys.run (s : PipeSys) (acts : List PipeAct) : PipeSys := acts.foldl PipeSys.step s

/-! ## §2. The invariant. -/

/-- The number of bytes taken out. -/
def PipeSys.taken (s : PipeSys) : Nat := s.returned.length + s.rd.i

/-- What the reader knows at each point. -/
def ReadPcOk (s : PipeSys) : PipePc → Prop
  | .testOwn r => s.rd.buf.length = s.rd.i ∧ r = s.pipe.pRpos
  | .testOther w => s.rd.buf.length = s.rd.i ∧
      ∃ k, w = BitVec.ofNat 32 k ∧ s.taken ≤ k ∧ k ≤ s.sent.length
  | .index => s.rd.buf.length = s.rd.i ∧ s.taken < s.sent.length
  | .move r => s.rd.buf.length = s.rd.i ∧ r = s.pipe.pRpos ∧ s.taken < s.sent.length
  | .incLoad => s.rd.buf.length = s.rd.i + 1 ∧ s.taken < s.sent.length
  | .incStore r => s.rd.buf.length = s.rd.i + 1 ∧ r = s.pipe.pRpos ∧ s.taken < s.sent.length
  | .idle => s.rd.buf = [] ∧ s.rd.i = 0
  | .gone => True
  | .head | .test | .blocked | .closing _ _ => s.rd.buf.length = s.rd.i

/-- What the writer knows at each point. -/
def WritePcOk (s : PipeSys) : PipePc → Prop
  | .test | .blocked | .closing _ _ => s.wr.i < s.wr.buf.length
  | .testOwn w => s.wr.i < s.wr.buf.length ∧ w = s.pipe.pWpos
  | .testOther r => s.wr.i < s.wr.buf.length ∧ ∃ k, r = BitVec.ofNat 32 k ∧ k ≤ s.taken
  | .index => s.wr.i < s.wr.buf.length ∧ s.sent.length < s.taken + 32
  | .move w => s.wr.i < s.wr.buf.length ∧ w = s.pipe.pWpos ∧ s.sent.length < s.taken + 32
  | .incLoad => s.wr.i < s.wr.buf.length ∧ s.sent.length < s.taken + 32 ∧
      s.pipe.pBuf (s.sent.length % 32) = s.wr.buf.getD s.wr.i 0
  | .incStore w => s.wr.i < s.wr.buf.length ∧ w = s.pipe.pWpos ∧ s.sent.length < s.taken + 32 ∧
      s.pipe.pBuf (s.sent.length % 32) = s.wr.buf.getD s.wr.i 0
  | .idle => s.wr.buf = [] ∧ s.wr.i = 0
  | .head => s.wr.i ≤ s.wr.buf.length
  | .gone => True

structure PipeInv (s : PipeSys) : Prop where
  rpos : s.pipe.pRpos = BitVec.ofNat 32 s.taken
  wpos : s.pipe.pWpos = BitVec.ofNat 32 s.sent.length
  order : s.taken ≤ s.sent.length
  room : s.sent.length ≤ s.taken + 32
  /-- The bytes not yet taken are in the ring. -/
  ring : ∀ k, s.taken ≤ k → k < s.sent.length → s.pipe.pBuf (k % 32) = s.sent.getD k 0
  /-- What the reader has is what was sent first. -/
  got : s.returned ++ s.rd.buf <+: s.sent
  readStart : s.rd.pc ≠ .idle → s.rd.pc ≠ .gone → s.rd.start = BitVec.ofNat 32 s.returned.length
  writeStart : s.wr.pc ≠ .idle → s.wr.pc ≠ .gone →
    ∃ k, s.sent.length = k + s.wr.i ∧ s.wr.start = BitVec.ofNat 32 k
  rets : ∀ r ∈ s.rets, r.1 ≠ 0 → r.2.toNat = r.1
  readPc : ReadPcOk s s.rd.pc
  writePc : WritePcOk s s.wr.pc

theorem pipeIndex_ofNat (hk : k < 2 ^ 31) : pipeIndex (BitVec.ofNat 32 k) = k % 32 := by
  have hmsb : (BitVec.ofNat 32 k).msb = false := by
    rw [BitVec.msb_eq_false_iff_two_mul_lt, toNat_ofNat_lt (by omega)]
    omega
  unfold pipeIndex PIPEBUFSIZ
  rw [BitVec.srem_eq, hmsb, show (32#32).msb = false by decide]
  rw [BitVec.toNat_umod, toNat_ofNat_lt (by omega), BitVec.toNat_ofNat]

theorem ofNat_succ (k : Nat) : BitVec.ofNat 32 k + 1#32 = BitVec.ofNat 32 (k + 1) := by
  rw [BitVec.ofNat_add]

/-- The test for a full pipe. -/
theorem full_iff {j k : Nat} (hj : j < 2 ^ 31) (hk : k < 2 ^ 31) :
    BitVec.ofNat 32 j ≥ BitVec.ofNat 32 k + PIPEBUFSIZ ↔ k + 32 ≤ j := by
  unfold PIPEBUFSIZ
  rw [ge_iff_le, BitVec.le_def, BitVec.toNat_add, BitVec.toNat_ofNat, BitVec.toNat_ofNat,
    BitVec.toNat_ofNat]
  omega

theorem PipeInv.init : PipeInv PipeSys.init := by
  refine ⟨rfl, rfl, le_rfl, Nat.zero_le _, fun k _ hk => absurd hk (Nat.not_lt_zero k),
    List.prefix_rfl, fun h _ => absurd rfl h,
    fun h _ => absurd rfl h,
    fun r hr => absurd hr List.not_mem_nil, ⟨rfl, rfl⟩, ⟨rfl, rfl⟩⟩

/-! ## §3. The reader keeps it. -/

section

variable {s s' : PipeSys}

/-- What the writer knows stays true when bytes are taken out. -/
theorem WritePcOk.mono (h : WritePcOk s pc) (hi : s'.wr.i = s.wr.i)
    (hb : s'.wr.buf = s.wr.buf) (hs : s'.sent = s.sent) (hw : s'.pipe.pWpos = s.pipe.pWpos)
    (hr : s'.pipe.pBuf = s.pipe.pBuf) (ht : s.taken ≤ s'.taken) : WritePcOk s' pc := by
  have hroom : s.taken + 32 ≤ s'.taken + 32 := Nat.add_le_add_right ht 32
  cases pc <;> simp only [WritePcOk, hi, hb, hs, hw, hr] at h ⊢
  case testOther r =>
    obtain ⟨hlt, k, hk, hle⟩ := h
    exact ⟨hlt, k, hk, hle.trans ht⟩
  case index => exact ⟨h.1, h.2.trans_le hroom⟩
  case move w => exact ⟨h.1, h.2.1, h.2.2.trans_le hroom⟩
  case incLoad => exact ⟨h.1, h.2.1.trans_le hroom, h.2.2⟩
  case incStore w => exact ⟨h.1, h.2.1, h.2.2.1.trans_le hroom, h.2.2.2⟩
  all_goals exact h

/-- What the reader knows stays true when bytes are put in. -/
theorem ReadPcOk.mono (h : ReadPcOk s pc) (hi : s'.rd.i = s.rd.i)
    (hb : s'.rd.buf = s.rd.buf) (hret : s'.returned = s.returned)
    (hr : s'.pipe.pRpos = s.pipe.pRpos) (hs : s.sent.length ≤ s'.sent.length) : ReadPcOk s' pc := by
  have ht : s'.taken = s.taken := by
    show s'.returned.length + s'.rd.i = s.returned.length + s.rd.i
    rw [hret, hi]
  cases pc <;> simp only [ReadPcOk, hi, hb, hr, ht] at h ⊢
  case testOther w =>
    obtain ⟨hlen, k, hk, hle, hks⟩ := h
    exact ⟨hlen, k, hk, hle, hks.trans hs⟩
  case index => exact ⟨h.1, h.2.trans_le hs⟩
  case move r => exact ⟨h.1, h.2.1, h.2.2.trans_le hs⟩
  case incLoad => exact ⟨h.1, h.2.trans_le hs⟩
  case incStore r => exact ⟨h.1, h.2.1, h.2.2.trans_le hs⟩
  all_goals exact h

/-- The end is in a call. -/
def PipePc.Busy (pc : PipePc) : Prop := pc ≠ .idle ∧ pc ≠ .gone

section
variable (h : PipeInv s)
include h

/-- Moving the reader's program counter. -/
theorem PipeInv.setRd (hb : s.rd.pc.Busy) (hok : ReadPcOk s pc) :
    PipeInv (s.setRd pc) where
  rpos := h.rpos
  wpos := h.wpos
  order := h.order
  room := h.room
  ring := h.ring
  got := h.got
  readStart _ _ := h.readStart hb.1 hb.2
  writeStart := h.writeStart
  rets := h.rets
  readPc := hok.mono rfl rfl rfl rfl le_rfl
  writePc := h.writePc.mono rfl rfl rfl rfl rfl le_rfl

/-- A read returns what it has in its buffer. -/
theorem PipeInv.readReturns (hb : s.rd.pc.Busy)
    (hlen : s.rd.buf.length = s.rd.i) (hlt : s.sent.length < 2 ^ 31)
    (hr : r ≠ 0 → r = s.rd.i) : PipeInv (s.readReturns r) := by
  have htaken : (s.readReturns r).taken = s.taken := by
    show (s.returned ++ s.rd.buf).length + 0 = s.returned.length + s.rd.i
    rw [List.length_append, hlen, Nat.add_zero]
  refine ⟨by rw [htaken]; exact h.rpos, h.wpos, by rw [htaken]; exact h.order,
    by rw [htaken]; exact h.room, fun k hk => h.ring k (htaken ▸ hk), ?_,
    fun hc _ => absurd rfl hc, h.writeStart, fun q hq hne => ?_, ⟨rfl, rfl⟩,
    h.writePc.mono rfl rfl rfl rfl rfl (by rw [htaken])⟩
  · show (s.returned ++ s.rd.buf) ++ [] <+: s.sent
    rw [List.append_nil]
    exact h.got
  · rcases List.mem_append.mp hq with hq | hq
    · exact h.rets q hq hne
    · -- the distance is `i`
      rw [List.mem_singleton] at hq
      subst hq
      have horder := h.order
      unfold PipeSys.taken at horder
      rw [h.rpos, h.readStart hb.1 hb.2, hr hne]
      unfold PipeSys.taken
      rw [BitVec.toNat_sub, BitVec.toNat_ofNat, BitVec.toNat_ofNat]
      omega

/-- **One step of `devpipe_read`.** -/
theorem PipeInv.devpipeRead (hlt : s.sent.length < 2 ^ 31) (swap : Bool) :
    PipeInv (devpipeRead swap s) := by
  have hpc := h.readPc
  have horder := h.order
  unfold Jos.devpipeRead
  cases hrd : s.rd.pc
  all_goals rw [hrd] at hpc
  case idle | gone => exact h
  all_goals have hb : s.rd.pc.Busy := by simp [hrd, PipePc.Busy]
  case head =>
    dsimp only
    split
    · exact h.setRd hb hpc
    · exact h.readReturns hb hpc hlt (fun _ => rfl)
  case test =>
    refine h.setRd hb ?_
    cases swap with
    | true => exact ⟨hpc, s.sent.length, h.wpos, horder, le_rfl⟩
    | false => exact ⟨hpc, rfl⟩
  case testOwn r =>
    refine h.setRd hb ?_
    split
    · exact hpc.1
    · next hne =>
        refine ⟨hpc.1, Nat.lt_of_le_of_ne horder fun heq => hne ?_⟩
        rw [hpc.2, h.rpos, h.wpos, heq]
  case testOther w =>
    obtain ⟨hlen, k, hk, htk, hks⟩ := hpc
    refine h.setRd hb ?_
    split
    · exact hlen
    · -- `p_wpos` may have grown since it was loaded
      next hne =>
        refine ⟨hlen, Nat.lt_of_lt_of_le (Nat.lt_of_le_of_ne htk fun heq => hne ?_) hks⟩
        rw [h.rpos, hk, heq]
  case blocked =>
    dsimp only
    split
    · exact h.readReturns hb hpc hlt (fun _ => rfl)
    · exact h.setRd hb hpc
  case closing runs n =>
    dsimp only
    split
    · split
      · exact h.readReturns hb hpc hlt (fun hc => absurd rfl hc)
      · exact h.setRd hb hpc
    · exact h.setRd hb hpc
  case index =>
    exact h.setRd hb ⟨hpc.1, rfl, hpc.2⟩
  case move r =>
    obtain ⟨hlen, rfl, htk⟩ := hpc
    -- the byte in the ring is the next one that was sent
    have hbyte : s.pipe.pBuf (pipeIndex s.pipe.pRpos) = s.sent.getD s.taken 0 := by
      rw [h.rpos, pipeIndex_ofNat (by omega)]
      exact h.ring _ le_rfl htk
    refine ⟨h.rpos, h.wpos, h.order, h.room, h.ring, ?_, fun _ _ => h.readStart hb.1 hb.2,
      h.writeStart, h.rets, ⟨?_, htk⟩,
      h.writePc.mono rfl rfl rfl rfl rfl le_rfl⟩
    · have hgl : (s.returned ++ s.rd.buf).length = s.taken := by
        rw [List.length_append, hlen]
        rfl
      have hnext : s.sent.take s.taken ++ [s.sent.getD s.taken 0] = s.sent.take (s.taken + 1) := by
        rw [List.take_add_one, List.getD_eq_getElem?_getD, List.getElem?_eq_getElem htk]
        rfl
      rw [← List.append_assoc, hbyte, List.prefix_iff_eq_take.mp h.got, hgl, hnext]
      exact List.take_prefix _ _
    · rw [List.length_append, hlen]
      rfl
  case incLoad =>
    exact h.setRd hb ⟨hpc.1, rfl, hpc.2⟩
  case incStore r =>
    obtain ⟨hlen, rfl, htk⟩ := hpc
    have hroom := h.room
    refine ⟨?_, h.wpos, ?_, ?_, fun k hk => h.ring k ?_, h.got, fun _ _ => h.readStart hb.1 hb.2,
      h.writeStart, h.rets, hlen, h.writePc.mono rfl rfl rfl rfl rfl ?_⟩
    · show s.pipe.pRpos + 1#32 = BitVec.ofNat 32 (s.returned.length + (s.rd.i + 1))
      rw [h.rpos, ofNat_succ]
      rfl
    all_goals unfold PipeSys.taken at *
    all_goals dsimp only at *
    all_goals omega

/-! ## §4. The writer keeps it. -/

/-- Moving the writer's program counter. -/
theorem PipeInv.setWr (hb : s.wr.pc.Busy) (hok : WritePcOk s pc) :
    PipeInv (s.setWr pc) where
  rpos := h.rpos
  wpos := h.wpos
  order := h.order
  room := h.room
  ring := h.ring
  got := h.got
  readStart := h.readStart
  writeStart _ _ := h.writeStart hb.1 hb.2
  rets := h.rets
  readPc := h.readPc.mono rfl rfl rfl rfl le_rfl
  writePc := hok.mono rfl rfl rfl rfl rfl le_rfl

/-- A write returns. -/
theorem PipeInv.writeReturns (hb : s.wr.pc.Busy)
    (hlt : s.sent.length < 2 ^ 31) (hr : r ≠ 0 → r = s.wr.i) : PipeInv (s.writeReturns r) := by
  refine ⟨h.rpos, h.wpos, h.order, h.room, h.ring, h.got, h.readStart,
    fun hc _ => absurd rfl hc, fun q hq hne => ?_, h.readPc.mono rfl rfl rfl rfl le_rfl,
    ⟨rfl, rfl⟩⟩
  · rcases List.mem_append.mp hq with hq | hq
    · exact h.rets q hq hne
    · rw [List.mem_singleton] at hq
      subst hq
      obtain ⟨k, hk, hstart⟩ := h.writeStart hb.1 hb.2
      rw [h.wpos, hstart, hr hne, BitVec.toNat_sub, BitVec.toNat_ofNat, BitVec.toNat_ofNat]
      omega

/-- **One step of `devpipe_write`.** -/
theorem PipeInv.devpipeWrite (hlt : s.sent.length < 2 ^ 31) (swap : Bool) :
    PipeInv (devpipeWrite swap s) := by
  have hpc := h.writePc
  have horder := h.order
  unfold Jos.devpipeWrite
  cases hwr : s.wr.pc
  all_goals rw [hwr] at hpc
  case idle | gone => exact h
  all_goals have hb : s.wr.pc.Busy := by simp [hwr, PipePc.Busy]
  case head =>
    dsimp only
    split
    · next hi => exact h.setWr hb hi
    · exact h.writeReturns hb hlt (fun _ => rfl)
  case test =>
    refine h.setWr hb ?_
    cases swap with
    | true => exact ⟨hpc, s.taken, h.rpos, le_rfl⟩
    | false => exact ⟨hpc, rfl⟩
  case testOwn w =>
    refine h.setWr hb ?_
    rw [hpc.2, h.wpos, h.rpos, if_congr (full_iff hlt (by omega)) rfl rfl]
    split
    · exact hpc.1
    · next hroom => exact ⟨hpc.1, Nat.lt_of_not_le hroom⟩
  case testOther r =>
    obtain ⟨hi, k, hk, hkt⟩ := hpc
    refine h.setWr hb ?_
    rw [hk, h.wpos, if_congr (full_iff hlt (by omega)) rfl rfl]
    split
    · exact hi
    · -- `p_rpos` may have grown since it was loaded
      next hroom => exact ⟨hi, by omega⟩
  case blocked =>
    exact h.setWr hb hpc
  case closing runs n =>
    dsimp only
    split
    · split
      · exact h.writeReturns hb hlt (fun hc => absurd rfl hc)
      · exact h.setWr hb hpc
    · exact h.setWr hb hpc
  case index =>
    exact h.setWr hb ⟨hpc.1, rfl, hpc.2⟩
  case move w =>
    obtain ⟨hi, rfl, hroom⟩ := hpc
    have hidx : pipeIndex s.pipe.pWpos = s.sent.length % 32 := by
      rw [h.wpos, pipeIndex_ofNat hlt]
    refine ⟨h.rpos, h.wpos, h.order, h.room, fun k hk hks => ?_, h.got, h.readStart, fun _ _ =>
      h.writeStart hb.1 hb.2, h.rets,
      h.readPc.mono rfl rfl rfl rfl le_rfl, ⟨hi, hroom, ?_⟩⟩
    · -- fewer than 32 bytes are in the ring, so none of them is overwritten
      have hk' : s.taken ≤ k := hk
      have hks' : k < s.sent.length := hks
      have hne : k % 32 ≠ pipeIndex s.pipe.pWpos := by
        omega
      exact (Function.update_of_ne hne _ _).trans (h.ring k hk hks)
    · show Function.update s.pipe.pBuf (pipeIndex s.pipe.pWpos) _ (s.sent.length % 32) = _
      rw [hidx, Function.update_self]
      rfl
  case incLoad =>
    exact h.setWr hb ⟨hpc.1, rfl, hpc.2⟩
  case incStore w =>
    obtain ⟨hi, rfl, hroom, hbyte⟩ := hpc
    have hlen : (s.sent ++ [s.wr.buf.getD s.wr.i 0]).length = s.sent.length + 1 :=
      List.length_append
    refine ⟨h.rpos, ?_, ?_, ?_, fun k hk hks => ?_, h.got.trans (List.prefix_append _ _),
      h.readStart, fun _ _ => ?_, h.rets,
      h.readPc.mono rfl rfl rfl rfl (by rw [hlen]; omega), hi⟩
    · show s.pipe.pWpos + 1#32 = BitVec.ofNat 32 (s.sent ++ [_]).length
      rw [h.wpos, ofNat_succ, hlen]
    · exact horder.trans (by rw [hlen]; omega)
    · rw [hlen]
      exact hroom
    · -- the new byte is the last one in the ring
      have hks' : k < s.sent.length + 1 := by
        rw [← hlen]
        exact hks
      show s.pipe.pBuf (k % 32) = (s.sent ++ [_]).getD k 0
      by_cases hlast : k = s.sent.length
      · rw [hlast, hbyte]
        simp
      · have hkl : k < s.sent.length := by omega
        rw [List.getD_eq_getElem?_getD, List.getElem?_append_left hkl,
          ← List.getD_eq_getElem?_getD]
        exact h.ring k hk hkl
    · obtain ⟨k, hk, hstart⟩ := h.writeStart hb.1 hb.2
      refine ⟨k, ?_, hstart⟩
      rw [hlen]
      show _ = k + (s.wr.i + 1)
      omega

/-! ## §5. Runs. -/

/-- **Every action keeps the invariant**, as long as the positions do not
overflow. -/
theorem PipeInv.step (hlt : s.sent.length < 2 ^ 31) (a : PipeAct) : PipeInv (s.step a) := by
  cases a with
  | read n =>
    unfold PipeSys.step
    dsimp only
    split
    · next hidle =>
        have hpc := h.readPc
        rw [hidle] at hpc
        obtain ⟨hbuf, hi⟩ := hpc
        have htaken : s.taken = s.returned.length := by
          unfold PipeSys.taken
          rw [hi, Nat.add_zero]
        have htaken' : ({ s with rd := ⟨.head, n, 0, [], s.pipe.pRpos⟩ } : PipeSys).taken
            = s.taken := htaken.symm
        refine ⟨by rw [htaken']; exact h.rpos, h.wpos, by rw [htaken']; exact h.order,
          by rw [htaken']; exact h.room, fun k hk => h.ring k (htaken' ▸ hk), ?_, fun _ _ =>
            ?_, h.writeStart, h.rets, rfl,
          h.writePc.mono rfl rfl rfl rfl rfl (by rw [htaken'])⟩
        · have hgot := h.got
          rw [hbuf] at hgot
          exact hgot
        · rw [h.rpos, htaken]
    · exact h
  | readStep swap => exact h.devpipeRead hlt swap
  | readClose =>
    exact ⟨h.rpos, h.wpos, h.order, h.room, h.ring, h.got, fun _ hc => absurd rfl hc,
      h.writeStart, h.rets, trivial, h.writePc.mono rfl rfl rfl rfl rfl le_rfl⟩
  | write buf =>
    unfold PipeSys.step
    dsimp only
    split
    · exact ⟨h.rpos, h.wpos, h.order, h.room, h.ring, h.got, h.readStart,
          fun _ _ => ⟨s.sent.length, rfl, h.wpos⟩, h.rets,
          h.readPc.mono rfl rfl rfl rfl le_rfl, Nat.zero_le _⟩
    · exact h
  | writeStep swap => exact h.devpipeWrite hlt swap
  | writeClose =>
    exact ⟨h.rpos, h.wpos, h.order, h.room, h.ring, h.got, h.readStart,
      fun _ hc => absurd rfl hc, h.rets, h.readPc.mono rfl rfl rfl rfl le_rfl, trivial⟩
  | map p | unmap p | readRuns | writeRuns =>
    exact ⟨h.rpos, h.wpos, h.order, h.room, h.ring, h.got, h.readStart, h.writeStart, h.rets,
      h.readPc.mono rfl rfl rfl rfl le_rfl, h.writePc.mono rfl rfl rfl rfl rfl le_rfl⟩

end

/-- Bytes are only added to those sent. -/
theorem PipeSys.sent_le_step (s : PipeSys) (a : PipeAct) :
    s.sent.length ≤ (s.step a).sent.length := by
  cases a with
  | read n => unfold PipeSys.step; dsimp only; split <;> exact le_rfl
  | readStep swap =>
    show _ ≤ (Jos.devpipeRead swap s).sent.length
    unfold Jos.devpipeRead
    split <;> (try split) <;> (try split) <;> exact le_rfl
  | readClose => exact le_rfl
  | write buf => unfold PipeSys.step; dsimp only; split <;> exact le_rfl
  | writeStep swap =>
    show _ ≤ (Jos.devpipeWrite swap s).sent.length
    unfold Jos.devpipeWrite
    split
    case h_12 => exact (List.prefix_append _ _).length_le
    all_goals (try split) <;> (try split) <;> exact le_rfl
  | writeClose | map p | unmap p | readRuns | writeRuns => exact le_rfl

theorem PipeSys.sent_le_run (s : PipeSys) (acts : List PipeAct) :
    s.sent.length ≤ (s.run acts).sent.length := by
  induction acts generalizing s with
  | nil => exact le_rfl
  | cons a acts ih => exact (s.sent_le_step a).trans (ih (s.step a))

theorem PipeInv.run (h : PipeInv s) (acts : List PipeAct)
    (hlt : (s.run acts).sent.length < 2 ^ 31) : PipeInv (s.run acts) := by
  induction acts generalizing s with
  | nil => exact h
  | cons a acts ih =>
    have hs : s.sent.length < 2 ^ 31 := ((s.sent_le_run (a :: acts)).trans_lt hlt)
    exact ih (h.step hs a) hlt

/-! ## §6. Nothing is lost. -/

/-- What the writer's `_pipeisclosed` relies on.  When it loads `pageref(fd)`, whoever maps a
descriptor has the pipe mapped beside it, and the reader has its descriptor; and no page is
mapped or unmapped before it has loaded `pageref(p)`, unless `env_runs` has changed. -/
def Undisturbed (s : PipeSys) : PipeAct → Prop
  | .writeStep _ => s.wr.pc = .blocked →
      s.refs .pipe = s.refs .rfd + s.refs .wfd ∧ (s.rd.pc ≠ .gone → 0 < s.refs .rfd)
  | .map _ | .unmap _ =>
    match s.wr.pc with
    | .closing runs _ => runs ≠ s.wrRuns
    | _ => True
  | _ => True

instance (s : PipeSys) (a : PipeAct) : Decidable (Undisturbed s a) := by
  unfold Undisturbed
  split <;> (try split) <;> infer_instance

def AllUndisturbed : PipeSys → List PipeAct → Prop
  | _, [] => True
  | s, a :: acts => Undisturbed s a ∧ AllUndisturbed (s.step a) acts

instance AllUndisturbed.decide : ∀ s acts, Decidable (AllUndisturbed s acts)
  | _, [] => inferInstanceAs (Decidable True)
  | s, a :: acts =>
    have := AllUndisturbed.decide (s.step a) acts
    inferInstanceAs (Decidable (_ ∧ _))

/-- Between the two loads the counts are as they were at the first, or `env_runs` is not. -/
def ClosingOk (s : PipeSys) : PipePc → Prop
  | .closing runs n => runs ≤ s.wrRuns ∧ (runs = s.wrRuns → n = s.refs .wfd ∧
      s.refs .pipe = s.refs .rfd + s.refs .wfd ∧ (s.rd.pc ≠ .gone → 0 < s.refs .rfd))
  | _ => True

structure PipeWhole (s : PipeSys) : Prop where
  /-- What is still to be sent is in the writer's buffer. -/
  todo : s.rd.pc ≠ .gone → s.passed = s.sent ++ s.wr.buf.drop s.wr.i
  fifo : s.returned <+: s.passed
  closing : ClosingOk s s.wr.pc

section

variable {s s' : PipeSys} (h : PipeInv s) (hw : PipeWhole s)
include h hw

/-- What the reader can do to it: return bytes that were sent. -/
theorem PipeWhole.reader (hwr : s'.wr = s.wr) (hsent : s'.sent = s.sent)
    (hpassed : s'.passed = s.passed) (hrefs : s'.refs = s.refs) (hruns : s'.wrRuns = s.wrRuns)
    (hgone : s.rd.pc = .gone → s'.rd.pc = .gone)
    (hret : s'.returned = s.returned ∨ s.rd.pc ≠ .gone ∧ s'.returned = s.returned ++ s.rd.buf) :
    PipeWhole s' := by
  have hback : s'.rd.pc ≠ .gone → s.rd.pc ≠ .gone := fun hno hg => hno (hgone hg)
  refine ⟨fun hno => ?_, ?_, ?_⟩
  · rw [hpassed, hsent, hwr]
    exact hw.todo (hback hno)
  · rw [hpassed]
    rcases hret with hret | ⟨hno, hret⟩
    · exact hret ▸ hw.fifo
    · rw [hret, hw.todo hno]
      exact h.got.trans (List.prefix_append _ _)
  · have hc := hw.closing
    rw [hwr]
    cases hpc : s.wr.pc with
    | closing runs n =>
      rw [hpc] at hc
      refine ⟨hruns ▸ hc.1, fun heq => ?_⟩
      obtain ⟨h1, h2, h3⟩ := hc.2 (heq.trans hruns)
      rw [hrefs]
      exact ⟨h1, h2, fun hno => h3 (hback hno)⟩
    | _ => trivial

theorem PipeWhole.devpipeRead (swap : Bool) : PipeWhole (devpipeRead swap s) := by
  unfold Jos.devpipeRead
  cases hrd : s.rd.pc
  case idle | gone => exact hw
  all_goals have hno : s.rd.pc ≠ .gone := by rw [hrd]; nofun
  all_goals have hstay : ∀ pc, PipeWhole (s.setRd pc) := fun pc =>
    hw.reader h rfl rfl rfl rfl rfl (fun hg => absurd hg hno) (.inl rfl)
  all_goals have hret : ∀ r, PipeWhole (s.readReturns r) := fun r =>
    hw.reader h rfl rfl rfl rfl rfl (fun hg => absurd hg hno) (.inr ⟨hno, rfl⟩)
  case head =>
    dsimp only
    split
    · exact hstay _
    · exact hret _
  case blocked =>
    dsimp only
    split
    · exact hret _
    · exact hstay _
  case closing runs n =>
    dsimp only
    split
    · split
      · exact hret _
      · exact hstay _
    · exact hstay _
  case move r | incStore r =>
    exact hw.reader h rfl rfl rfl rfl rfl (fun hg => absurd hg hno) (.inl rfl)
  all_goals exact hstay _

/-- **One step of `devpipe_write`** that is not disturbed. -/
theorem PipeWhole.devpipeWrite {swap : Bool} (hok : Undisturbed s (.writeStep swap)) :
    PipeWhole (devpipeWrite swap s) := by
  have hpc := h.writePc
  have hclosing := hw.closing
  have hstay : ∀ pc, ClosingOk s pc → PipeWhole (s.setWr pc) := fun pc hpc =>
    ⟨hw.todo, hw.fifo, by cases pc <;> exact hpc⟩
  unfold Jos.devpipeWrite
  cases hwr : s.wr.pc
  all_goals rw [hwr] at hpc hclosing
  case idle | gone => exact hw
  case blocked => exact hstay _ ⟨le_rfl, fun _ => ⟨rfl, hok hwr⟩⟩
  case closing runs n =>
    dsimp only
    split
    · next hruns =>
        split
        · -- equal counts: the reader is gone
          next heq =>
            obtain ⟨h1, h2, h3⟩ := hclosing.2 hruns
            refine ⟨fun hno => ?_, hw.fifo, trivial⟩
            have := h3 hno
            omega
        · exact hstay _ trivial
    · exact hstay _ trivial
  case head =>
    dsimp only
    split
    · exact hstay _ trivial
    · next hi =>
        refine ⟨fun hno => ?_, hw.fifo, trivial⟩
        show s.passed = s.sent ++ []
        rw [hw.todo hno, List.drop_eq_nil_of_le (Nat.le_of_not_lt hi)]
  case incStore w =>
    refine ⟨fun hno => ?_, hw.fifo, trivial⟩
    rw [hw.todo hno, List.append_assoc, List.singleton_append, List.getD_eq_getElem?_getD,
      List.getElem?_eq_getElem hpc.1, List.drop_eq_getElem_cons hpc.1]
    rfl
  case move w => exact ⟨hw.todo, hw.fifo, trivial⟩
  case test => exact hstay _ (by split <;> trivial)
  case testOwn w => exact hstay _ (by split <;> trivial)
  case testOther r => exact hstay _ (by split <;> trivial)
  all_goals exact hstay _ trivial

theorem PipeWhole.step {a : PipeAct} (hok : Undisturbed s a) : PipeWhole (s.step a) := by
  cases a with
  | read n =>
    unfold PipeSys.step
    dsimp only
    split
    · next hidle =>
        exact hw.reader h rfl rfl rfl rfl rfl (fun hg => by rw [hidle] at hg; cases hg) (.inl rfl)
    · exact hw
  | readStep swap => exact hw.devpipeRead h swap
  | readClose => exact hw.reader h rfl rfl rfl rfl rfl (fun _ => rfl) (.inl rfl)
  | write buf =>
    unfold PipeSys.step
    dsimp only
    split
    · next hidle =>
        have hpc := h.writePc
        rw [hidle] at hpc
        refine ⟨fun hno => ?_, hw.fifo.trans (List.prefix_append _ _), trivial⟩
        rw [hw.todo hno, hpc.1, List.drop_nil, List.append_nil, List.drop_zero]
    · exact hw
  | writeStep swap => exact hw.devpipeWrite h hok
  | writeClose => exact ⟨hw.todo, hw.fifo, trivial⟩
  | readRuns => exact hw.reader h rfl rfl rfl rfl rfl id (.inl rfl)
  | map p | unmap p | writeRuns =>
    refine ⟨hw.todo, hw.fifo, ?_⟩
    have hc := hw.closing
    show ClosingOk _ s.wr.pc
    cases hpc : s.wr.pc with
    | closing runs n =>
      rw [hpc] at hc
      have hle := hc.1
      unfold Undisturbed at hok
      first
      | (rw [hpc] at hok
         exact ⟨hle, fun heq => absurd heq hok⟩)
      | exact ⟨Nat.le_succ_of_le hle, fun heq => by
          have : runs = s.wrRuns + 1 := heq
          omega⟩
    | _ => trivial

end

theorem PipeWhole.run {s : PipeSys} (h : PipeInv s) (hw : PipeWhole s) {acts : List PipeAct}
    (hok : AllUndisturbed s acts) (hlt : (s.run acts).sent.length < 2 ^ 31) :
    PipeWhole (s.run acts) := by
  induction acts generalizing s with
  | nil => exact hw
  | cons a acts ih =>
    have hs : s.sent.length < 2 ^ 31 := ((s.sent_le_run (a :: acts)).trans_lt hlt)
    exact ih (h.step hs a) (hw.step h hok.1) hok.2 hlt

/-- **Pipes are FIFO** as long as the writer's `_pipeisclosed` is not disturbed.  In every run
of one reader and one writer, with calls of any sizes and their loads and stores interleaved in
any way, as long as fewer than 2^31 bytes have gone into the pipe: the positions are at most 32
apart, what the reads returned is a prefix of what was passed to the writes,
and a return value other than 0 is the number of bytes moved. -/
theorem pipe_fifo (acts : List PipeAct) (s : PipeSys) (hs : s = PipeSys.init.run acts)
    (hok : AllUndisturbed PipeSys.init acts) (hlt : s.sent.length < 2 ^ 31) :
    0 ≤ (s.pipe.pWpos - s.pipe.pRpos).toInt ∧ (s.pipe.pWpos - s.pipe.pRpos).toInt ≤ 32 ∧
    s.returned <+: s.passed ∧ ∀ r ∈ s.rets, r.1 ≠ 0 → r.2.toNat = r.1 := by
  subst hs
  have h := PipeInv.init.run acts hlt
  have hw := PipeWhole.run PipeInv.init ⟨fun _ => rfl, List.prefix_rfl, trivial⟩ hok hlt
  generalize PipeSys.init.run acts = s at h hw hlt
  have horder := h.order
  have hroom := h.room
  have hdist : (s.pipe.pWpos - s.pipe.pRpos).toInt = s.sent.length - s.taken := by
    rw [h.wpos, h.rpos, BitVec.toInt_eq_toNat_cond, BitVec.toNat_sub, BitVec.toNat_ofNat,
      BitVec.toNat_ofNat]
    omega
  exact ⟨by omega, by omega, hw.fifo, h.rets⟩

/-- 33 bytes are written; the pipe is full after 32 of them, and the writer asks whether the
reader is gone. -/
def fullPipe : List PipeAct :=
  .write (.replicate 33 7#8) :: .replicate 229 (.writeStep false) ++
    .read 32 :: .replicate 225 (.readStep true) ++ .replicate 7 (.writeStep true) ++
    .read 1 :: .replicate 8 (.readStep true)

theorem pipe_fifo_full : ∃ s : PipeSys, s = PipeSys.init.run fullPipe ∧ s.returned.length = 33 ∧
    s.rets = [(32, 32#32), (33, 33#32), (1, 1#32)] ∧ s.returned <+: s.passed := by
  refine ⟨_, rfl, by decide +kernel, by decide +kernel, ?_⟩
  exact (pipe_fifo fullPipe _ rfl (by decide +kernel) (by decide +kernel)).2.2.1

/-- The writer's environment has the writing end, another one both ends, and they have the pipe
three times.  The writer finds the pipe full after 32 of 33 bytes and has loaded `pageref(fd)`
when the other one closes its writing end. -/
def cutShort : List PipeAct :=
  [.map .wfd, .map .pipe, .write (.replicate 33 0#8)] ++ .replicate 228 (.writeStep false) ++
    [.unmap .wfd, .unmap .pipe, .writeStep false, .read 32] ++ .replicate 225 (.readStep false) ++
    .write [9#8] :: .replicate 8 (.writeStep false) ++ .read 1 :: .replicate 8 (.readStep false)

/-- **A write is cut short** although the reader is there, and a byte is lost. -/
theorem pipe_write_cut : ∃ s : PipeSys, s = PipeSys.init.run cutShort ∧ s.rd.pc = .idle ∧
    s.refs .rfd = 1 ∧ s.sent.length = 33 ∧ s.rets.head? = some (0, 32#32) ∧
    ¬ s.returned <+: s.passed := by
  refine ⟨_, rfl, ?_⟩
  decide +kernel

/-! ## §7. The indices. -/

/-- The index of an access, as the `int` the code computes. -/
def pipeSlot (pos : Word) : Int := (pos.srem PIPEBUFSIZ).toInt

theorem pipeSlot_ofNat (hk : k < 2 ^ 31) : pipeSlot (BitVec.ofNat 32 k) = k % 32 := by
  have hidx := pipeIndex_ofNat hk
  unfold pipeIndex at hidx
  unfold pipeSlot
  rw [BitVec.toInt_eq_toNat_of_lt (by omega), hidx]
  omega

/-- **Indices stay in bounds**, as long as fewer than 2^31 bytes have gone into
the pipe: a byte is read from and stored into one of the 32 slots, and the
writer's slot holds no byte that was sent and not yet taken out. -/
theorem pipe_in_bounds (acts : List PipeAct) (s : PipeSys) (hs : s = PipeSys.init.run acts)
    (hlt : s.sent.length < 2 ^ 31) :
    (∀ r, s.rd.pc = .move r → 0 ≤ pipeSlot r ∧ pipeSlot r < 32) ∧
    ∀ w, s.wr.pc = .move w → 0 ≤ pipeSlot w ∧ pipeSlot w < 32 ∧
      ∀ k, s.taken ≤ k → k < s.sent.length → pipeSlot (BitVec.ofNat 32 k) ≠ pipeSlot w := by
  subst hs
  have h := PipeInv.init.run acts hlt
  generalize PipeSys.init.run acts = s at h hlt
  have horder := h.order
  refine ⟨fun r hr => ?_, fun w hw => ?_⟩
  · have hpc := h.readPc
    rw [hr] at hpc
    rw [hpc.2.1, h.rpos, pipeSlot_ofNat (by omega)]
    omega
  · have hpc := h.writePc
    rw [hw] at hpc
    obtain ⟨-, rfl, hroom⟩ := hpc
    rw [h.wpos, pipeSlot_ofNat hlt]
    refine ⟨by omega, by omega, fun k hk hks => ?_⟩
    rw [pipeSlot_ofNat (by omega)]
    omega

/-- The writer is about to store the first of two bytes. -/
theorem pipe_in_bounds_two : ∃ w,
    (PipeSys.init.run (.write [7#8, 8#8] :: .replicate 4 (.writeStep false))).wr.pc = .move w ∧
      0 ≤ pipeSlot w ∧ pipeSlot w < 32 := by
  have h := (pipe_in_bounds (.write [7#8, 8#8] :: .replicate 4 (.writeStep false)) _ rfl
    (by decide)).2 0#32 rfl
  exact ⟨0#32, rfl, h.1, h.2.1⟩

/-- One byte goes through the pipe. -/
def oneByte : List PipeAct :=
  .write [0#8] :: .replicate 8 (.writeStep false) ++ .read 1 :: .replicate 8 (.readStep false)

/-- Both ends are idle and `k` bytes have gone through. -/
def Passed (k : Nat) (s : PipeSys) : Prop :=
  s.rd.pc = .idle ∧ s.wr.pc = .idle ∧ s.pipe.pRpos = BitVec.ofNat 32 k ∧
    s.pipe.pWpos = BitVec.ofNat 32 k

/-- The pipe is not full. -/
theorem not_full (hk : k + 32 < 2 ^ 32) : ¬ BitVec.ofNat 32 k ≥ BitVec.ofNat 32 k + PIPEBUFSIZ := by
  unfold PIPEBUFSIZ
  rw [ge_iff_le, BitVec.le_def, BitVec.toNat_add, BitVec.toNat_ofNat, BitVec.toNat_ofNat]
  omega

theorem Passed.oneByte (h : Passed k s) (hk : k + 32 < 2 ^ 32) :
    Passed (k + 1) (s.run oneByte) := by
  obtain ⟨⟨rpos, wpos, buf⟩, ⟨rpc, n, i, rbuf, rs⟩, ⟨wpc, wbuf, j, ws⟩, refs, k₁, k₂, passed, sent,
    ret, rets⟩ := s
  obtain ⟨rfl, rfl, rfl, rfl⟩ := h
  have hmore : ¬ BitVec.ofNat 32 k = BitVec.ofNat 32 (k + 1) := by
    rw [← ofNat_succ]
    simp
  simp [PipeSys.run, Jos.oneByte, List.replicate, PipeSys.step, Jos.devpipeWrite,
    Jos.devpipeRead, PipeSys.setWr, PipeSys.setRd, PipeSys.writeReturns, PipeSys.readReturns,
    not_full hk, hmore, Passed, ofNat_succ]

/-- The next byte is about to be stored. -/
theorem Passed.move (h : Passed k s) (hk : k + 32 < 2 ^ 32) :
    (s.run (.write [0#8] :: .replicate 4 (.writeStep false))).wr.pc = .move (BitVec.ofNat 32 k) :=
      by
  obtain ⟨⟨rpos, wpos, buf⟩, rd, ⟨wpc, wbuf, j, ws⟩, refs, k₁, k₂, passed, sent, ret, rets⟩ := s
  obtain ⟨-, rfl, rfl, rfl⟩ := h
  simp [PipeSys.run, List.replicate, PipeSys.step, Jos.devpipeWrite, PipeSys.setWr, not_full hk]

theorem exists_passed (hk : k + 31 < 2 ^ 32) : ∃ acts, Passed k (PipeSys.init.run acts) := by
  induction k with
  | zero => exact ⟨[], rfl, rfl, rfl, rfl⟩
  | succ k ih =>
    obtain ⟨acts, h⟩ := ih (by omega)
    refine ⟨acts ++ oneByte, ?_⟩
    rw [PipeSys.run, List.foldl_append]
    exact h.oneByte (by omega)

/-- After 2^31 + 1 bytes the next one is stored at `p_buf[-31]`. -/
theorem pipe_index_negative : ∃ acts w, (PipeSys.init.run acts).wr.pc = .move w ∧
    pipeSlot w = -31 := by
  obtain ⟨acts, h⟩ := exists_passed (k := 2 ^ 31 + 1) (by omega)
  refine ⟨acts ++ .write [0#8] :: .replicate 4 (.writeStep false), BitVec.ofNat 32 (2 ^ 31 + 1),
    ?_, by decide⟩
  rw [PipeSys.run, List.foldl_append]
  exact h.move (by omega)

end

end Jos

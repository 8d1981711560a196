/-
  Jos.Net.Mbox — **THE NETWORK SERVER'S MAILBOXES** (`net/lwip/jos/arch/sys_arch.c`,
  `thread.c`).

  A mailbox is a ring of `MBOXSLOTS` slots between two counting semaphores.  The
  ring's `head` is `-1` when it is empty, and `nextq = head` when it is full.
  Posting and fetching wait for a semaphore, and a wait gives the processor to
  other threads inside `thread_wait`.  From the test that finds the counter
  positive to the signal of the other semaphore nothing yields, so this much is
  one step; everything else of a wait, the reads of the clock included, is cut
  into steps of its own.

  `mailbox_exact` is the result, for any number of threads, calls and timeouts.
  Its one delicate point is that a wait which succeeds does not return
  `SYS_ARCH_TIMEOUT`: what it has waited is at most what the clock shows, and
  the kernel stops before its millisecond clock wraps.
-/
import Jos.Kern.State
import Jos.Lib.Ring

namespace Jos.Net

open Jos Jos.Ring
open Function (update update_of_ne update_self)

variable {h n : Nat} {waited : Word}

variable {α : Type}

/-! ## §1. Semaphores and the ring. -/

def MBOXSLOTS : Nat := 32
def SYS_ARCH_NOWAIT : Word := 0xfffffffe#32
def SYS_ARCH_TIMEOUT : Word := 0xffffffff#32

/-- The two semaphores of a mailbox. -/
inductive SemId where
  | queuedMsg
  | freeMsg
  deriving DecidableEq

/-- The counters of `struct sys_sem_entry`. -/
structure Sem where
  counter : BitVec 16
  waiters : BitVec 16

/-- The union's other member, which `thread_wait` watches. -/
def Sem.v (m : Sem) : Word := m.waiters ++ m.counter

/-- What must not happen. -/
inductive MboxFailure where
  /-- `sys_mbox_trypost` returns `ERR_MEM`. -/
  | errMem
  /-- `panic("lwip: sys_arch_mbox_fetch: no message")`. -/
  | noMessage
  deriving DecidableEq

/-- `struct sys_mbox_entry` with its semaphores, and what went through it. -/
structure Box (α : Type) where
  head : Int
  nextq : Nat
  msg : Nat → α
  sem : SemId → Sem
  posted : List α
  fetched : List α
  failure : Option MboxFailure

/-- A new mailbox: `waiters` and the slots hold what they held before. -/
def Box.new (msg : Nat → α) (waiters : SemId → BitVec 16) : Box α :=
  { head := -1
    nextq := 0
    msg := msg
    sem := fun
      | .queuedMsg => { counter := 0, waiters := waiters .queuedMsg }
      | .freeMsg => { counter := BitVec.ofNat 16 MBOXSLOTS, waiters := waiters .freeMsg }
    posted := []
    fetched := []
    failure := none }

def Box.setSem (b : Box α) (k : SemId) (m : Sem) : Box α :=
  { b with sem := update b.sem k m }

/-- `sys_sem_signal`, without the wakeups. -/
def Box.signal (b : Box α) (k : SemId) : Box α :=
  b.setSem k
    { counter := (b.sem k).counter + 1
      waiters := if (b.sem k).waiters ≠ 0 then 0 else (b.sem k).waiters }

/-- `sems[sem].counter--`. -/
def Box.decrement (b : Box α) (k : SemId) : Box α :=
  b.setSem k { b.sem k with counter := (b.sem k).counter - 1 }

/-- `sys_mbox_trypost` after its wait. -/
def Box.trypost (b : Box α) (x : α) : Box α :=
  if (b.nextq : Int) = b.head then { b with failure := some .errMem }
  else
    { b with
      nextq := (b.nextq + 1) % MBOXSLOTS
      msg := update b.msg b.nextq x
      head := if b.head = -1 then (b.nextq : Int) else b.head
      posted := b.posted ++ [x] }.signal .queuedMsg

/-- `sys_arch_mbox_fetch` after its wait, which returned `waited`. -/
def Box.fetch (b : Box α) (waited : Word) : Box α :=
  if waited = SYS_ARCH_TIMEOUT then b
  else if b.head = -1 then { b with failure := some .noMessage }
  else
    let slot := b.head.toNat
    let head := (slot + 1) % MBOXSLOTS
    { b with
      head := if head = b.nextq then -1 else (head : Int)
      fetched := b.fetched ++ [b.msg slot] }.signal .freeMsg

/-! ## §2. The ring and its counters. -/

/-- How many messages are queued, read off the ring. -/
def Box.count (b : Box α) : Nat :=
  if b.head = -1 then 0
  else if (b.nextq : Int) = b.head then MBOXSLOTS
  else gap MBOXSLOTS b.head.toNat b.nextq

/-- The queued messages, oldest first. -/
def Box.queue (b : Box α) : List α := contents b.msg MBOXSLOTS b.head.toNat b.count

/-- `n` messages are queued from slot `h` on, and both counters say so. -/
structure BoxInv (h n : Nat) (b : Box α) : Prop where
  le : n ≤ MBOXSLOTS
  slot_lt : h < MBOXSLOTS
  head_eq : b.head = if n = 0 then -1 else (h : Int)
  nextq_eq : b.nextq = (h + n) % MBOXSLOTS
  order : b.posted = b.fetched ++ contents b.msg MBOXSLOTS h n
  queuedCount : (b.sem .queuedMsg).counter.toNat = n
  freeCount : (b.sem .freeMsg).counter.toNat = MBOXSLOTS - n
  fine : b.failure = none

theorem BoxInv.new (msg : Nat → α) (waiters : SemId → BitVec 16) :
    BoxInv 0 0 (Box.new msg waiters) where
  le := Nat.zero_le _
  slot_lt := by decide
  head_eq := rfl
  nextq_eq := rfl
  order := rfl
  queuedCount := rfl
  freeCount := rfl
  fine := rfl

/-- The tail meets the head only in an empty or a full ring. -/
theorem tail_eq_head (hh : h < MBOXSLOTS) (hn : n < MBOXSLOTS) :
    (h + n) % MBOXSLOTS = h ↔ n = 0 := by
  constructor
  · intro he
    refine offset_inj hn (show 0 < MBOXSLOTS by decide) (h := h) ?_
    rw [he, Nat.add_zero, Nat.mod_eq_of_lt hh]
  · rintro rfl
    rw [Nat.add_zero, Nat.mod_eq_of_lt hh]

/-- The count read off the ring is the count of the invariant. -/
theorem BoxInv.count_eq {b : Box α} (hb : BoxInv h n b) : b.count = n := by
  unfold Box.count
  rw [hb.head_eq, hb.nextq_eq]
  by_cases h0 : n = 0
  · rw [if_pos h0, if_pos rfl, h0]
  · rw [if_neg h0, if_neg (by omega), Int.toNat_natCast]
    by_cases hfull : n = MBOXSLOTS
    · rw [if_pos, hfull]
      rw [hfull, Nat.add_mod_right, Nat.mod_eq_of_lt hb.slot_lt]
    · have hlt : n < MBOXSLOTS := Nat.lt_of_le_of_ne hb.le hfull
      rw [if_neg, gap_add hb.slot_lt hlt]
      intro he
      exact h0 ((tail_eq_head hb.slot_lt hlt).mp (Int.ofNat.inj he))

theorem BoxInv.queue_eq {b : Box α} (hb : BoxInv h n b) :
    b.queue = contents b.msg MBOXSLOTS h n := by
  unfold Box.queue
  rw [hb.count_eq, hb.head_eq]
  by_cases h0 : n = 0
  · rw [h0, contents_zero, contents_zero]
  · rw [if_neg h0, Int.toNat_natCast]

/-- A small 16-bit counter counts. -/
theorem counter_succ {c : BitVec 16} (hc : c.toNat = n) (hn : n < MBOXSLOTS) :
    (c + 1).toNat = n + 1 := by
  have : n < 32 := hn
  rw [BitVec.toNat_add, hc, show (1 : BitVec 16).toNat = 1 from rfl, Nat.mod_eq_of_lt (by omega)]

theorem counter_pred {c : BitVec 16} (hc : 0 < c.toNat) : (c - 1).toNat = c.toNat - 1 := by
  rw [BitVec.toNat_sub, show (1 : BitVec 16).toNat = 1 from rfl]
  omega

/-- **Posting** after a successful wait. -/
theorem BoxInv.trypost {b : Box α} (hb : BoxInv h n b)
    (hpos : 0 < (b.sem .freeMsg).counter.toNat) (x : α) :
    BoxInv h (n + 1) ((b.decrement .freeMsg).trypost x) := by
  have hfree := hb.freeCount
  have hlt : n < MBOXSLOTS := by
    have := hb.le
    omega
  have hne : ¬ (b.nextq : Int) = b.head := by
    rw [hb.head_eq, hb.nextq_eq]
    by_cases h0 : n = 0
    · omega
    · rw [if_neg h0]
      exact fun he => h0 ((tail_eq_head hb.slot_lt hlt).mp (Int.ofNat.inj he))
  have hcases : (b.decrement .freeMsg).trypost x
      = { b.decrement .freeMsg with
          nextq := (b.nextq + 1) % MBOXSLOTS
          msg := update b.msg b.nextq x
          head := if b.head = -1 then (b.nextq : Int) else b.head
          posted := b.posted ++ [x] }.signal .queuedMsg := if_neg hne
  rw [hcases]
  refine ⟨hlt, hb.slot_lt, ?_, ?_, ?_, ?_, ?_, hb.fine⟩
  · show (if b.head = -1 then (b.nextq : Int) else b.head) = if n + 1 = 0 then -1 else (h : Int)
    rw [if_neg (Nat.succ_ne_zero n), hb.head_eq]
    by_cases h0 : n = 0
    · rw [if_pos h0, if_pos rfl, hb.nextq_eq, (tail_eq_head hb.slot_lt hlt).mpr h0]
    · rw [if_neg h0, if_neg (by omega)]
  · show (b.nextq + 1) % MBOXSLOTS = (h + (n + 1)) % MBOXSLOTS
    rw [hb.nextq_eq, Nat.mod_add_mod, Nat.add_assoc]
  · show b.posted ++ [x]
      = b.fetched ++ contents (update b.msg b.nextq x) MBOXSLOTS h (n + 1)
    -- the slot written is not one of the queued ones
    have hold : contents (update b.msg b.nextq x) MBOXSLOTS h n
        = contents b.msg MBOXSLOTS h n := by
      refine contents_congr fun i hi => update_of_ne ?_ _ _
      intro he
      rw [he, hb.nextq_eq] at hi
      exact tail_not_mem (Nat.le_refl n) hlt hi
    rw [contents_push, hold, ← hb.nextq_eq, update_self, hb.order, List.append_assoc]
  · exact counter_succ hb.queuedCount hlt
  · show ((b.sem .freeMsg).counter - 1).toNat = MBOXSLOTS - (n + 1)
    rw [counter_pred hpos, hfree]
    omega

/-- **Fetching** after a successful wait. -/
theorem BoxInv.fetch {b : Box α} (hb : BoxInv h n b) (hpos : 0 < (b.sem .queuedMsg).counter.toNat)
    (hw : waited ≠ SYS_ARCH_TIMEOUT) :
    BoxInv ((h + 1) % MBOXSLOTS) (n - 1) ((b.decrement .queuedMsg).fetch waited) := by
  have hqueued := hb.queuedCount
  have hle := hb.le
  obtain ⟨m, rfl⟩ : ∃ m, n = m + 1 := Nat.exists_eq_succ_of_ne_zero (by omega)
  have hhead : b.head = (h : Int) := by
    rw [hb.head_eq, if_neg (Nat.succ_ne_zero m)]
  have hcases : (b.decrement .queuedMsg).fetch waited
      = { b.decrement .queuedMsg with
          head := if (h + 1) % MBOXSLOTS = b.nextq then -1 else (((h + 1) % MBOXSLOTS : Nat) : Int)
          fetched := b.fetched ++ [b.msg h] }.signal .freeMsg := by
    unfold Box.fetch
    rw [if_neg hw, if_neg (show ¬ (b.decrement .queuedMsg).head = -1 by
      show ¬ b.head = -1
      omega), show (b.decrement .queuedMsg).head.toNat = h by
        show b.head.toNat = h
        rw [hhead, Int.toNat_natCast]]
    rfl
  rw [hcases]
  have hnext : b.nextq = ((h + 1) % MBOXSLOTS + m) % MBOXSLOTS := by
    rw [hb.nextq_eq, Nat.mod_add_mod]
    congr 1
    omega
  have hslot : (h + 1) % MBOXSLOTS < MBOXSLOTS := Nat.mod_lt _ (by decide)
  have hm : m < MBOXSLOTS := by omega
  refine ⟨by omega, hslot, ?_, hnext, ?_, ?_, ?_, hb.fine⟩
  · show (if (h + 1) % MBOXSLOTS = b.nextq then (-1 : Int) else ((h + 1) % MBOXSLOTS : Nat))
      = if m = 0 then -1 else (((h + 1) % MBOXSLOTS : Nat) : Int)
    rw [hnext]
    by_cases h0 : m = 0
    · rw [if_pos ((tail_eq_head hslot hm).mpr h0).symm, if_pos h0]
    · rw [if_neg fun he => h0 ((tail_eq_head hslot hm).mp he.symm), if_neg h0]
  · show b.posted = (b.fetched ++ [b.msg h]) ++ contents b.msg MBOXSLOTS ((h + 1) % MBOXSLOTS) m
    rw [hb.order, contents_pop _ hb.slot_lt]
    simp
  · show ((b.sem .queuedMsg).counter - 1).toNat = m + 1 - 1
    rw [counter_pred hpos, hqueued]
  · show ((b.sem .freeMsg).counter + 1).toNat = MBOXSLOTS - (m + 1 - 1)
    rw [counter_succ hb.freeCount (by omega)]
    omega

/-! ## §3. Threads and the clock. -/

/-- A call on the mailbox; `sys_arch_mbox_tryfetch` is a fetch with
`SYS_ARCH_NOWAIT`. -/
inductive MboxCall (α : Type) where
  | post (x : α)
  | fetch (tm : Word)

/-- The semaphore a call waits for, and how long. -/
def MboxCall.sem : MboxCall α → SemId
  | .post _ => .freeMsg
  | .fetch _ => .queuedMsg

def MboxCall.tm : MboxCall α → Word
  | .post _ => 0#32
  | .fetch tm => tm

/-- The locals of `sys_arch_sem_wait` around its `thread_wait`. -/
structure Sleep (α : Type) where
  call : MboxCall α
  waited : Word
  a : Word
  sleepUntil : Word
  curV : Word

/-- Where a thread is. -/
inductive ThreadPc (α : Type) where
  /-- Not in a call on the mailbox. -/
  | idle
  /-- At the head of the loop in `sys_arch_sem_wait`. -/
  | test (c : MboxCall α) (waited : Word)
  /-- `thread_wait` reads the clock. -/
  | enter (z : Sleep α)
  /-- At the head of the loop in `thread_wait`. -/
  | watch (z : Sleep α) (s p : Word)
  /-- In `thread_yield`. -/
  | yielded (z : Sleep α) (s : Word)
  /-- `thread_wait` has returned; the clock is read again. -/
  | woken (z : Sleep α)

/-- The threads of the server around one mailbox. -/
structure MboxSys (α : Type) where
  ticks : Word
  box : Box α
  cur : Nat
  pc : Nat → ThreadPc α
  waitAddr : Nat → Option SemId
  wakeup : Nat → Bool

/-- `sys_time_msec()`. -/
def MboxSys.now (s : MboxSys α) : Word := s.ticks * 10#32

def MboxSys.goto (s : MboxSys α) (pc : ThreadPc α) : MboxSys α :=
  { s with pc := update s.pc s.cur pc }

/-- `thread_wakeup` of the threads that wait for `k`, if it has waiters. -/
def MboxSys.wake (s : MboxSys α) (k : SemId) : MboxSys α :=
  { s with
    wakeup := fun t =>
      if (s.box.sem k).waiters ≠ 0 ∧ s.waitAddr t = some k then true else s.wakeup t }

/-- The counter was positive: the rest of the call. -/
def MboxSys.complete (s : MboxSys α) (c : MboxCall α) (waited : Word) : MboxSys α :=
  match c with
  | .post x =>
    { s.wake .queuedMsg with box := (s.box.decrement .freeMsg).trypost x }.goto .idle
  | .fetch _ =>
    { s.wake .freeMsg with box := (s.box.decrement .queuedMsg).fetch waited }.goto .idle

/-- One iteration of `sys_arch_sem_wait`, up to its `thread_wait`. -/
def MboxSys.semTest (s : MboxSys α) (c : MboxCall α) (waited : Word) : MboxSys α :=
  if c.tm = 0#32 ∨ waited < c.tm then
    if (s.box.sem c.sem).counter > 0 then s.complete c waited
    else if c.tm = SYS_ARCH_NOWAIT then s.goto .idle
    else
      let a := s.now
      let m : Sem := { s.box.sem c.sem with waiters := 1 }
      { s with box := s.box.setSem c.sem m }.goto (.enter
        { call := c
          waited := waited
          a := a
          sleepUntil := if c.tm ≠ 0#32 then a + (c.tm - waited) else ~~~0#32
          curV := m.v })
  else s.goto .idle

/-- One iteration of `thread_wait`. -/
def MboxSys.watchTest (s : MboxSys α) (z : Sleep α) (start p : Word) : MboxSys α :=
  if p < z.sleepUntil ∧ ¬ p < start ∧ (s.box.sem z.call.sem).v = z.curV
      ∧ s.wakeup s.cur = false then
    s.goto (.yielded z start)
  else
    { s with
      waitAddr := update s.waitAddr s.cur none
      wakeup := update s.wakeup s.cur false }.goto (.woken z)

/-- What the running thread does next in its call. -/
def MboxSys.advance (s : MboxSys α) : MboxSys α :=
  match s.pc s.cur with
  | .idle => s
  | .test c waited => s.semTest c waited
  | .enter z =>
    { s with
      waitAddr := update s.waitAddr s.cur (some z.call.sem)
      wakeup := update s.wakeup s.cur false }.goto (.watch z s.now s.now)
  | .watch z start p => s.watchTest z start p
  | .yielded z start => s.goto (.watch z start s.now)
  | .woken z => s.goto (.test z.call (z.waited + (s.now - z.a)))

/-- A thread gives the processor away only here. -/
def ThreadPc.atSwitch : ThreadPc α → Prop
  | .idle => True
  | .yielded _ _ => True
  | _ => False

/-- One step of the server or of the clock.  `time_tick` panics, and the system
stops, when the millisecond clock wraps. -/
inductive MboxStep : MboxSys α → MboxSys α → Prop
  | tick (s : MboxSys α) (h : ¬ (s.ticks + 1#32) * 10#32 < s.ticks + 1#32) :
      MboxStep s { s with ticks := s.ticks + 1#32 }
  | switch (s : MboxSys α) (t : Nat) (h : (s.pc s.cur).atSwitch) : MboxStep s { s with cur := t }
  | call (s : MboxSys α) (c : MboxCall α) (h : s.pc s.cur = .idle) :
      MboxStep s (s.goto (.test c 0#32))
  | advance (s : MboxSys α) : MboxStep s s.advance

/-- A state in which the mailbox was just made, and the clock has not wrapped. -/
structure MboxStart (s : MboxSys α) : Prop where
  clock : s.ticks.toNat * 10 < 2 ^ 32
  fresh : ∃ msg waiters, s.box = Box.new msg waiters
  idle : ∀ t, s.pc t = .idle

def MboxReaches (s₀ : MboxSys α) : MboxSys α → Prop := Relation.ReflTransGen MboxStep s₀

/-! ## §4. A wait is no longer than the clock shows. -/

/-- The times a thread carries are in the past. -/
def ThreadPc.timely (now : Nat) : ThreadPc α → Prop
  | .idle => True
  | .test _ waited => waited.toNat ≤ now
  | .enter z => z.waited.toNat ≤ z.a.toNat ∧ z.a.toNat ≤ now
  | .watch z _ _ => z.waited.toNat ≤ z.a.toNat ∧ z.a.toNat ≤ now
  | .yielded z _ => z.waited.toNat ≤ z.a.toNat ∧ z.a.toNat ≤ now
  | .woken z => z.waited.toNat ≤ z.a.toNat ∧ z.a.toNat ≤ now

theorem ThreadPc.timely_mono {now now' : Nat} (hle : now ≤ now') {pc : ThreadPc α}
    (h : pc.timely now) : pc.timely now' := by
  cases pc with
  | idle => trivial
  | test c waited => exact Nat.le_trans h hle
  | enter z | watch z s p | yielded z s | woken z => exact ⟨h.1, Nat.le_trans h.2 hle⟩

/-- The invariant of the server. -/
structure MboxInv (s : MboxSys α) : Prop where
  clock : s.ticks.toNat * 10 < 2 ^ 32
  timely : ∀ t, (s.pc t).timely (s.ticks.toNat * 10)
  box : ∃ h n, BoxInv h n s.box

theorem MboxInv.now_eq {s : MboxSys α} (h : MboxInv s) : s.now.toNat = s.ticks.toNat * 10 := by
  have hc := h.clock
  unfold MboxSys.now
  rw [BitVec.toNat_mul, show (10#32 : Word).toNat = 10 from rfl, Nat.mod_eq_of_lt hc]

/-- `ticks * 10 < ticks` catches the first wrap. -/
theorem tick_clock {ticks : Word} (h : ticks.toNat * 10 < 2 ^ 32)
    (hno : ¬ (ticks + 1#32) * 10#32 < ticks + 1#32) :
    (ticks + 1#32).toNat = ticks.toNat + 1 ∧ (ticks + 1#32).toNat * 10 < 2 ^ 32 := by
  have hadd : (ticks + 1#32).toNat = ticks.toNat + 1 := by
    rw [BitVec.toNat_add, show (1#32 : Word).toNat = 1 from rfl, Nat.mod_eq_of_lt (by omega)]
  refine ⟨hadd, ?_⟩
  rw [BitVec.lt_def, BitVec.toNat_mul, show (10#32 : Word).toNat = 10 from rfl, hadd] at hno
  rw [hadd]
  -- past the bound the product wraps to less than ten
  by_contra hge
  have : (ticks.toNat + 1) * 10 % 2 ^ 32 = (ticks.toNat + 1) * 10 - 2 ^ 32 := by
    rw [Nat.mod_eq_sub_mod (by omega), Nat.mod_eq_of_lt (by omega)]
  omega

/-- Moving the running thread on. -/
theorem MboxInv.goto {s s' : MboxSys α} {pc : ThreadPc α} (h : MboxInv s)
    (hticks : s'.ticks = s.ticks) (hpcs : s'.pc = s.pc) (hbox : ∃ h n, BoxInv h n s'.box)
    (hpc : pc.timely (s.ticks.toNat * 10)) : MboxInv (s'.goto pc) where
  clock := by
    show s'.ticks.toNat * 10 < 2 ^ 32
    rw [hticks]
    exact h.clock
  timely := by
    intro t
    show (update s'.pc s'.cur pc t).timely (s'.ticks.toNat * 10)
    rw [hticks, hpcs]
    by_cases ht : t = s'.cur
    · rw [ht, update_self]
      exact hpc
    · rw [update_of_ne ht]
      exact h.timely t
  box := hbox

/-- A wait that succeeds does not look like a timeout. -/
theorem MboxInv.waited_ne {s : MboxSys α} (h : MboxInv s)
    (hw : waited.toNat ≤ s.ticks.toNat * 10) : waited ≠ SYS_ARCH_TIMEOUT := by
  have hc := h.clock
  rintro rfl
  have : SYS_ARCH_TIMEOUT.toNat = 2 ^ 32 - 1 := rfl
  omega

/-- The rest of a call whose wait succeeded. -/
theorem MboxInv.complete {s : MboxSys α} (h : MboxInv s) {c : MboxCall α}
    (hw : waited.toNat ≤ s.ticks.toNat * 10) (hpos : (s.box.sem c.sem).counter > 0) :
    MboxInv (s.complete c waited) := by
  obtain ⟨hd, n, hb⟩ := h.box
  have hpos' : 0 < (s.box.sem c.sem).counter.toNat := hpos
  cases c with
  | post x => exact h.goto rfl rfl ⟨hd, n + 1, hb.trypost hpos' x⟩ trivial
  | fetch tm =>
    exact h.goto rfl rfl ⟨(hd + 1) % MBOXSLOTS, n - 1, hb.fetch hpos' (h.waited_ne hw)⟩ trivial

/-- Setting `waiters` touches no counter. -/
theorem BoxInv.setWaiters {hd n : Nat} {b : Box α} (hb : BoxInv hd n b) (k : SemId)
    (w : BitVec 16) : BoxInv hd n (b.setSem k { b.sem k with waiters := w }) := by
  refine ⟨hb.le, hb.slot_lt, hb.head_eq, hb.nextq_eq, hb.order, ?_, ?_, hb.fine⟩
  · cases k with
    | queuedMsg => exact hb.queuedCount
    | freeMsg => exact hb.queuedCount
  · cases k with
    | queuedMsg => exact hb.freeCount
    | freeMsg => exact hb.freeCount

theorem MboxInv.semTest {s : MboxSys α} (h : MboxInv s) {c : MboxCall α}
    (hw : waited.toNat ≤ s.ticks.toNat * 10) : MboxInv (s.semTest c waited) := by
  obtain ⟨hd, n, hb⟩ := h.box
  unfold MboxSys.semTest
  by_cases htm : c.tm = 0#32 ∨ waited < c.tm
  · rw [if_pos htm]
    by_cases hpos : (s.box.sem c.sem).counter > 0
    · rw [if_pos hpos]
      exact h.complete hw hpos
    · rw [if_neg hpos]
      split
      · exact h.goto rfl rfl h.box trivial
      · refine h.goto rfl rfl ⟨hd, n, hb.setWaiters c.sem 1⟩ ⟨?_, ?_⟩
        · rw [h.now_eq]
          exact hw
        · rw [h.now_eq]
  · rw [if_neg htm]
    exact h.goto rfl rfl h.box trivial

/-- The time slept is added without a wrap. -/
theorem MboxInv.waited_add {s : MboxSys α} (h : MboxInv s) {waited a : Word}
    (hw : waited.toNat ≤ a.toNat) (ha : a.toNat ≤ s.ticks.toNat * 10) :
    (waited + (s.now - a)).toNat ≤ s.ticks.toNat * 10 := by
  have hnow := h.now_eq
  have hsub : (s.now - a).toNat = s.ticks.toNat * 10 - a.toNat := by
    rw [BitVec.toNat_sub_of_le (by rw [BitVec.le_def, hnow]; exact ha), hnow]
  rw [BitVec.toNat_add, hsub, Nat.mod_eq_of_lt (by omega)]
  omega

/-- **The running thread keeps the mailbox.** -/
theorem MboxInv.advance {s : MboxSys α} (h : MboxInv s) : MboxInv s.advance := by
  have ht := h.timely s.cur
  unfold MboxSys.advance
  cases hpc : s.pc s.cur with
  | idle => exact h
  | test c waited =>
    rw [hpc] at ht
    exact h.semTest ht
  | enter z =>
    rw [hpc] at ht
    exact h.goto rfl rfl h.box ht
  | watch z start p =>
    rw [hpc] at ht
    show MboxInv (s.watchTest z start p)
    unfold MboxSys.watchTest
    split
    · exact h.goto rfl rfl h.box ht
    · exact h.goto rfl rfl h.box ht
  | yielded z start =>
    rw [hpc] at ht
    exact h.goto rfl rfl h.box ht
  | woken z =>
    rw [hpc] at ht
    exact h.goto rfl rfl h.box (h.waited_add ht.1 ht.2)

/-- **One step keeps the mailbox.** -/
theorem MboxInv.step {s s' : MboxSys α} (h : MboxInv s) (hs : MboxStep s s') : MboxInv s' := by
  cases hs with
  | tick hno =>
    obtain ⟨hadd, hclock⟩ := tick_clock h.clock hno
    refine ⟨hclock, fun t => ThreadPc.timely_mono ?_ (h.timely t), h.box⟩
    show s.ticks.toNat * 10 ≤ (s.ticks + 1#32).toNat * 10
    omega
  | switch t hsw => exact ⟨h.clock, h.timely, h.box⟩
  | call c hidle => exact h.goto rfl rfl h.box (Nat.zero_le _)
  | advance => exact h.advance

theorem MboxInv.reached {s₀ s : MboxSys α} (h₀ : MboxStart s₀) (h : MboxReaches s₀ s) :
    MboxInv s := by
  induction h with
  | refl =>
    obtain ⟨msg, waiters, hbox⟩ := h₀.fresh
    refine ⟨h₀.clock, fun t => ?_, 0, 0, ?_⟩
    · rw [h₀.idle t]
      trivial
    · rw [hbox]
      exact BoxInv.new msg waiters
  | tail _ hs ih => exact ih.step hs

/-- **MAILBOXES ARE EXACT.**  For any number of threads, calls and timeouts, at
every moment: the free and the queued messages make up the mailbox, the counter
of `queued_msg` is the number of queued messages, what was posted is what was
fetched followed by what is queued, no post returned `ERR_MEM` and no fetch
panicked. -/
theorem mailbox_exact {s₀ s : MboxSys α} (h₀ : MboxStart s₀) (h : MboxReaches s₀ s) :
    (s.box.sem .freeMsg).counter.toNat + s.box.queue.length = MBOXSLOTS
      ∧ (s.box.sem .queuedMsg).counter.toNat = s.box.queue.length
      ∧ s.box.posted = s.box.fetched ++ s.box.queue
      ∧ s.box.failure = none := by
  obtain ⟨hd, n, hb⟩ := (MboxInv.reached h₀ h).box
  have hlen : s.box.queue.length = n := by
    rw [hb.queue_eq]
    simp [contents, cells]
  have hle := hb.le
  rw [hlen]
  refine ⟨?_, hb.queuedCount, ?_, hb.fine⟩
  · rw [hb.freeCount]
    omega
  · rw [hb.queue_eq]
    exact hb.order

/-- A new mailbox of numbers, with every thread idle. -/
def emptyMboxSys : MboxSys Nat :=
  { ticks := 0#32
    box := Box.new (fun _ => 0) fun _ => 0
    cur := 0
    pc := fun _ => .idle
    waitAddr := fun _ => none
    wakeup := fun _ => false }

/-- One message posted. -/
theorem mailbox_exact_one :
    ∃ s, MboxReaches emptyMboxSys s ∧ s.box.posted = [5] ∧ s.box.queue = [5]
      ∧ s.box.posted = s.box.fetched ++ s.box.queue := by
  have hstart : MboxStart emptyMboxSys := ⟨by decide, ⟨fun _ => 0, fun _ => 0, rfl⟩, fun _ => rfl⟩
  have hreach : MboxReaches emptyMboxSys (emptyMboxSys.goto (.test (.post 5) 0#32)).advance :=
    (Relation.ReflTransGen.single (MboxStep.call _ (.post 5) rfl)).tail (MboxStep.advance _)
  exact ⟨_, hreach, rfl, rfl, (mailbox_exact hstart hreach).2.2.1⟩

end Jos.Net

/-
  Jos.Net.Serv — **THE NETWORK SERVER'S REQUEST BUFFERS** (`net/serv.c`).

  `serve` takes a buffer before it knows what will arrive in it.  A timer
  message gives it back at once, a request gives it to a thread of its own,
  which gives it back when it is done, and a request without a page is left
  hanging with its buffer.  The threads are cooperative: they run where `serve`
  yields, and finish in any order.

    • `buffers_exact`: while every message that is not a timer message carries
      a page and gets its thread, the buffers marked in use are those `serve`
      or an unfinished request holds, and `get_buffer` panics only for
      `QUEUE_SIZE` unfinished requests.
    • `pageless_exhaust`: twenty messages without a page stop the server while
      no request is unfinished.
-/
import Jos.Kern.Mmu

namespace Jos.Net

open Jos
open Function (update update_of_ne)

/-! ## §1. The pool. -/

def QUEUE_SIZE : Nat := 20
def REQVA : Word := 0x0ffff000#32 - BitVec.ofNat 32 QUEUE_SIZE * PGSIZE
def NSREQ_TIMER : Word := 12#32

/-- The address of buffer `i`. -/
def bufferVa (i : Nat) : Word := REQVA + BitVec.ofNat 32 i * PGSIZE

/-- The buffer an address belongs to, as `put_buffer` computes it. -/
def bufferIndex (va : Word) : Nat := ((va - REQVA) / PGSIZE).toNat

/-- `get_buffer()`: the first buffer not in use. -/
def getBuffer (buse : Nat → Bool) : Except String (Word × (Nat → Bool)) :=
  match (List.range QUEUE_SIZE).find? fun i => !buse i with
  | none => .error "NS: buffer overflow"
  | some i => .ok (bufferVa i, update buse i true)

/-- `put_buffer(va)`. -/
def putBuffer (buse : Nat → Bool) (va : Word) : Nat → Bool :=
  update buse (bufferIndex va) false

theorem bufferIndex_bufferVa {i : Nat} (hi : i < QUEUE_SIZE) : bufferIndex (bufferVa i) = i := by
  have h : ∀ i < 20, ((REQVA + BitVec.ofNat 32 i * PGSIZE - REQVA) / PGSIZE).toNat = i := by
    decide +kernel
  exact h i hi

/-- The addresses in `held` are distinct buffers, and just those are in use. -/
structure Owns (buse : Nat → Bool) (held : List Word) : Prop where
  buffers : ∀ va ∈ held, ∃ i < QUEUE_SIZE, va = bufferVa i
  distinct : held.Nodup
  exact : ∀ i < QUEUE_SIZE, buse i = true ↔ bufferVa i ∈ held

theorem Owns.perm {buse : Nat → Bool} {l l' : List Word} (h : Owns buse l) (hp : l.Perm l') :
    Owns buse l' where
  buffers va hva := h.buffers va (hp.mem_iff.mpr hva)
  distinct := hp.nodup_iff.mp h.distinct
  exact i hi := (h.exact i hi).trans hp.mem_iff

/-- A buffer taken is one nobody held. -/
theorem Owns.get {buse buse' : Nat → Bool} {held : List Word} {va : Word} (h : Owns buse held)
    (hget : getBuffer buse = .ok (va, buse')) : Owns buse' (va :: held) := by
  unfold getBuffer at hget
  cases hf : (List.range QUEUE_SIZE).find? fun i => !buse i with
  | none =>
    rw [hf] at hget
    cases hget
  | some i =>
    rw [hf] at hget
    have hi : i < QUEUE_SIZE := List.mem_range.mp (List.mem_of_find?_eq_some hf)
    have hfree : buse i = false := by
      have := List.find?_some hf
      simpa using this
    obtain ⟨rfl, rfl⟩ := Prod.mk.inj (Except.ok.inj hget)
    refine ⟨?_, ?_, ?_⟩
    · intro va hva
      rcases List.mem_cons.mp hva with rfl | hva
      · exact ⟨i, hi, rfl⟩
      · exact h.buffers va hva
    · refine List.nodup_cons.mpr ⟨fun hmem => ?_, h.distinct⟩
      rw [(h.exact i hi).mpr hmem] at hfree
      cases hfree
    · intro j hj
      by_cases hji : j = i
      · subst hji
        simp
      · -- two buffers have two addresses
        have hne : bufferVa j ≠ bufferVa i := fun he => hji (by
          rw [← bufferIndex_bufferVa hj, he, bufferIndex_bufferVa hi])
        rw [update_of_ne hji, h.exact j hj, List.mem_cons]
        simp [hne]

/-- A buffer put back is free again. -/
theorem Owns.put {buse : Nat → Bool} {held : List Word} {va : Word} (h : Owns buse (va :: held)) :
    Owns (putBuffer buse va) held := by
  obtain ⟨i, hi, rfl⟩ := h.buffers va (List.mem_cons_self ..)
  have hnot := (List.nodup_cons.mp h.distinct).1
  refine ⟨fun va hva => h.buffers va (List.mem_cons_of_mem _ hva),
    (List.nodup_cons.mp h.distinct).2, ?_⟩
  intro j hj
  unfold putBuffer
  rw [bufferIndex_bufferVa hi]
  by_cases hji : j = i
  · subst hji
    simp [hnot]
  · have hne : bufferVa j ≠ bufferVa i := fun he => hji (by
      rw [← bufferIndex_bufferVa hj, he, bufferIndex_bufferVa hi])
    rw [update_of_ne hji, h.exact j hj, List.mem_cons]
    simp [hne]

/-- If none is free, all are held. -/
theorem Owns.length_of_full {buse : Nat → Bool} {held : List Word} {msg : String}
    (h : Owns buse held) (hget : getBuffer buse = .error msg) : held.length = QUEUE_SIZE := by
  have hall : ∀ i < QUEUE_SIZE, buse i = true := by
    intro i hi
    unfold getBuffer at hget
    cases hf : (List.range QUEUE_SIZE).find? fun i => !buse i with
    | none =>
      have := List.find?_eq_none.mp hf i (List.mem_range.mpr hi)
      simpa using this
    | some j =>
      rw [hf] at hget
      cases hget
  have hperm : held.Perm ((List.range QUEUE_SIZE).map bufferVa) := by
    refine (List.perm_ext_iff_of_nodup h.distinct ?_).mpr fun va => ?_
    · refine List.Nodup.map_on ?_ List.nodup_range
      intro i hi j hj he
      rw [← bufferIndex_bufferVa (List.mem_range.mp hi), he,
        bufferIndex_bufferVa (List.mem_range.mp hj)]
    · constructor
      · intro hva
        obtain ⟨i, hi, rfl⟩ := h.buffers va hva
        exact List.mem_map.mpr ⟨i, List.mem_range.mpr hi, rfl⟩
      · intro hva
        obtain ⟨i, hi, rfl⟩ := List.mem_map.mp hva
        have hi' := List.mem_range.mp hi
        exact (h.exact i hi').mp (hall i hi')
  rw [hperm.length_eq, List.length_map, List.length_range]

/-! ## §2. The server. -/

/-- A message, as `ipc_recv` returns it. -/
structure Msg where
  reqno : Word
  whom : Word
  perm : Word
  deriving DecidableEq

/-- `struct st_args`. -/
structure StArgs where
  reqno : Word
  whom : Word
  req : Word
  deriving DecidableEq

/-- Where `serve` is. -/
inductive ServePc where
  /-- Before `get_buffer`, possibly in a `thread_yield`. -/
  | top
  /-- In `ipc_recv`, which blocks the whole process. -/
  | recv (va : Word)
  /-- In the `thread_yield` of `process_timer`. -/
  | timer (va : Word)
  /-- Stopped, with the buffer it held, if any. -/
  | panicked (msg : String) (va : Option Word)
  deriving DecidableEq

/-- The server; `threads` are the arguments of the unfinished `serve_thread`s. -/
structure Ns where
  buse : Nat → Bool
  pc : ServePc
  threads : List StArgs
  timerEnvid : Word

/-- The server when `serve` is entered. -/
def Ns.start (timerEnvid : Word) : Ns :=
  { buse := fun _ => false, pc := .top, threads := [], timerEnvid }

/-- The head of the loop in `serve`. -/
def Ns.getReady (s : Ns) : Ns :=
  match getBuffer s.buse with
  | .error msg => { s with pc := .panicked msg none }
  | .ok (va, buse) => { s with buse, pc := .recv va }

/-- The rest of the loop, for a message that arrived in the buffer at `va`.
`argsOk` and `threadOk` say whether `malloc` and `thread_create` succeed; the
result of the latter is not looked at. -/
def Ns.dispatch (s : Ns) (va : Word) (m : Msg) (argsOk threadOk : Bool) : Ns :=
  if m.reqno = NSREQ_TIMER then
    -- `process_timer` returns at once for a sender that is not the timer
    if m.whom ≠ s.timerEnvid then { s with buse := putBuffer s.buse va, pc := .top }
    else { s with pc := .timer va }
  else if m.perm &&& PTE_P = 0#32 then
    -- just leave it hanging...
    { s with pc := .top }
  else if argsOk = false then
    { s with pc := .panicked "could not allocate thread args structure" (some va) }
  else if threadOk = true then
    { s with pc := .top, threads := s.threads ++ [{ reqno := m.reqno, whom := m.whom, req := va }] }
  else { s with pc := .top }

/-- Another thread may run. -/
def ServePc.yields : ServePc → Prop
  | .top => True
  | .timer _ => True
  | _ => False

/-- One step of the server, for messages (and success of `thread_create`) in
`ok`. -/
inductive NsStep (ok : Msg → Bool → Prop) : Ns → Ns → Prop
  | ready (s : Ns) (h : s.pc = .top) : NsStep ok s s.getReady
  | message (s : Ns) (va : Word) (m : Msg) (argsOk threadOk : Bool) (h : s.pc = .recv va)
      (hok : ok m threadOk) : NsStep ok s (s.dispatch va m argsOk threadOk)
  | timerDone (s : Ns) (va : Word) (h : s.pc = .timer va) :
      NsStep ok s { s with buse := putBuffer s.buse va, pc := .top }
  /-- A `serve_thread` runs to its end. -/
  | finish (s : Ns) (l₁ l₂ : List StArgs) (a : StArgs) (hy : s.pc.yields)
      (h : s.threads = l₁ ++ a :: l₂) :
      NsStep ok s { s with buse := putBuffer s.buse a.req, threads := l₁ ++ l₂ }

def NsReaches (ok : Msg → Bool → Prop) (timerEnvid : Word) : Ns → Prop :=
  Relation.ReflTransGen (NsStep ok) (Ns.start timerEnvid)

/-! ## §3. Well-formed messages. -/

/-- The message is a timer message, or it carries a page and gets its thread. -/
def Proper (m : Msg) (threadOk : Bool) : Prop :=
  m.reqno ≠ NSREQ_TIMER → m.perm &&& PTE_P ≠ 0#32 ∧ threadOk = true

/-- The buffer `serve` itself holds. -/
def ServePc.held : ServePc → List Word
  | .top => []
  | .recv va => [va]
  | .timer va => [va]
  | .panicked _ va => va.toList

/-- The buffers `serve` and the unfinished requests hold. -/
def Ns.held (s : Ns) : List Word := s.pc.held ++ s.threads.map StArgs.req

/-- The invariant of the server. -/
structure NsInv (s : Ns) : Prop where
  owns : Owns s.buse s.held
  full : ∀ va, s.pc = .panicked "NS: buffer overflow" va → s.threads.length = QUEUE_SIZE

theorem NsInv.start (timerEnvid : Word) : NsInv (Ns.start timerEnvid) where
  owns :=
    { buffers := by
        intro va hva
        cases hva
      distinct := List.nodup_nil
      exact := by
        intro i _
        simp [Ns.start, Ns.held, ServePc.held] }
  full := by
    intro _ h
    cases h

/-- Taking a buffer. -/
theorem NsInv.getReady {s : Ns} (h : NsInv s) (htop : s.pc = .top) : NsInv s.getReady := by
  have howns := h.owns
  rw [Ns.held, htop] at howns
  unfold Ns.getReady
  cases hget : getBuffer s.buse with
  | error msg =>
    refine ⟨howns, fun _ _ => ?_⟩
    have := howns.length_of_full hget
    rwa [ServePc.held, List.nil_append, List.length_map] at this
  | ok r =>
    obtain ⟨va, buse⟩ := r
    refine ⟨howns.get hget, ?_⟩
    intro _ h0
    cases h0

/-- What a well-formed message does. -/
theorem NsInv.dispatch {s : Ns} {va : Word} {m : Msg} {argsOk threadOk : Bool} (h : NsInv s)
    (hrecv : s.pc = .recv va) (hok : Proper m threadOk) :
    NsInv (s.dispatch va m argsOk threadOk) := by
  have howns := h.owns
  rw [Ns.held, hrecv] at howns
  unfold Ns.dispatch
  by_cases ht : m.reqno = NSREQ_TIMER
  · rw [if_pos ht]
    split
    · refine ⟨howns.put, ?_⟩
      intro _ h0
      cases h0
    · refine ⟨howns, ?_⟩
      intro _ h0
      cases h0
  · obtain ⟨hpage, hthread⟩ := hok ht
    rw [if_neg ht, if_neg hpage]
    by_cases hargs : argsOk = false
    · rw [if_pos hargs]
      refine ⟨howns, ?_⟩
      intro _ h0
      simp at h0
    · rw [if_neg hargs, if_pos hthread]
      refine ⟨howns.perm ?_, ?_⟩
      · -- the buffer goes from `serve` to the new thread
        simp only [Ns.held, ServePc.held, List.map_append, List.map_cons, List.map_nil,
          List.nil_append]
        exact List.perm_append_comm
      · intro _ h0
        cases h0

/-- A thread that ends gives its buffer back. -/
theorem NsInv.finish {s : Ns} {l₁ l₂ : List StArgs} {a : StArgs} (h : NsInv s)
    (hy : s.pc.yields) (hth : s.threads = l₁ ++ a :: l₂) :
    NsInv { s with buse := putBuffer s.buse a.req, threads := l₁ ++ l₂ } := by
  have howns := h.owns
  rw [Ns.held, hth] at howns
  refine ⟨?_, ?_⟩
  · refine (howns.perm ?_).put
    simp only [Ns.held, List.map_append, List.map_cons]
    rw [← List.append_assoc, ← List.append_assoc]
    exact List.perm_middle
  · intro _ h0
    rw [h0] at hy
    exact hy.elim

/-- **One step keeps the pool.** -/
theorem NsInv.step {s s' : Ns} (h : NsInv s) (hs : NsStep Proper s s') : NsInv s' := by
  cases hs with
  | ready htop => exact h.getReady htop
  | message va m argsOk threadOk hrecv hok => exact h.dispatch hrecv hok
  | timerDone va htimer =>
    have howns := h.owns
    rw [Ns.held, htimer] at howns
    refine ⟨howns.put, ?_⟩
    intro _ h0
    cases h0
  | finish l₁ l₂ a hy hth => exact h.finish hy hth

theorem NsInv.reached {timerEnvid : Word} {s : Ns} (h : NsReaches Proper timerEnvid s) :
    NsInv s := by
  induction h with
  | refl => exact NsInv.start timerEnvid
  | tail _ hs ih => exact ih.step hs

/-- **BUFFERS IN USE ARE BUFFERS HELD.**  If every message that is not a timer
message carries a page and gets its thread, then in every state reached a
buffer is marked in use exactly when `serve` holds it or an unfinished request
does, no buffer is held twice, and `get_buffer` has panicked only if
`QUEUE_SIZE` requests are unfinished. -/
theorem buffers_exact {timerEnvid : Word} {s : Ns} (h : NsReaches Proper timerEnvid s) :
    (∀ i < QUEUE_SIZE, s.buse i = true ↔ bufferVa i ∈ s.held) ∧ s.held.Nodup
      ∧ ∀ va, s.pc = .panicked "NS: buffer overflow" va → s.threads.length = QUEUE_SIZE := by
  have hinv := NsInv.reached h
  exact ⟨hinv.owns.exact, hinv.owns.distinct, hinv.full⟩

/-- One request waits for its thread. -/
theorem buffers_exact_one :
    ∃ s, NsReaches Proper 5#32 s ∧ s.held = [bufferVa 0]
      ∧ (s.buse 0 = true ↔ bufferVa 0 ∈ s.held) := by
  have hreach : NsReaches Proper 5#32 ((Ns.start 5#32).getReady.dispatch (bufferVa 0)
      { reqno := 1#32, whom := 7#32, perm := 7#32 } true true) :=
    (Relation.ReflTransGen.single (NsStep.ready _ rfl)).tail
      (NsStep.message _ _ _ true true rfl fun _ => ⟨by decide, rfl⟩)
  exact ⟨_, hreach, rfl, (buffers_exact hreach).1 0 (by decide)⟩

/-! ## §4. Messages without a page. -/

/-- A message that carries no page. -/
def pageless : Msg := { reqno := 1#32, whom := 7#32, perm := 0#32 }

/-- `n` messages without a page have come. -/
structure Hung (n : Nat) (s : Ns) : Prop where
  buse : ∀ i, s.buse i = decide (i < n)
  pc : s.pc = .top
  threads : s.threads = []

/-- The next buffer taken is number `n`. -/
theorem Hung.get {n : Nat} {s : Ns} (h : Hung n s) (hn : n < QUEUE_SIZE) :
    getBuffer s.buse = .ok (bufferVa n, update s.buse n true) := by
  have hbuse : s.buse = fun i => decide (i < n) := funext h.buse
  have hfind : ∀ n < 20, (List.range 20).find? (fun i => !decide (i < n)) = some n := by decide
  rw [hbuse]
  show (match (List.range 20).find? (fun i => !decide (i < n)) with
    | none => Except.error "NS: buffer overflow"
    | some i => .ok (bufferVa i, update (fun i => decide (i < n)) i true)) = _
  rw [hfind n hn]

/-- One more of them costs one more buffer. -/
theorem Hung.message {n : Nat} {s : Ns} (h : Hung n s) (hn : n < QUEUE_SIZE) :
    ∃ s', Relation.ReflTransGen (NsStep fun m _ => m = pageless) s s' ∧ Hung (n + 1) s' := by
  have hget : s.getReady
      = { s with buse := update s.buse n true, pc := .recv (bufferVa n) } := by
    unfold Ns.getReady
    rw [h.get hn]
  refine ⟨s.getReady.dispatch (bufferVa n) pageless true true,
    (Relation.ReflTransGen.single (NsStep.ready s h.pc)).tail
      (NsStep.message _ _ _ true true (by rw [hget]) rfl), ?_⟩
  have hdisp : s.getReady.dispatch (bufferVa n) pageless true true
      = { s.getReady with pc := .top } := rfl
  rw [hdisp, hget]
  refine ⟨fun i => ?_, rfl, h.threads⟩
  show update s.buse n true i = decide (i < n + 1)
  by_cases hi : i = n
  · subst hi
    simp
  · rw [update_of_ne hi, h.buse]
    exact decide_eq_decide.mpr (by omega)

theorem Hung.messages (timerEnvid : Word) :
    ∀ n ≤ QUEUE_SIZE, ∃ s, NsReaches (fun m _ => m = pageless) timerEnvid s ∧ Hung n s := by
  intro n
  induction n with
  | zero =>
    intro _
    exact ⟨_, .refl, fun i => rfl, rfl, rfl⟩
  | succ n ih =>
    intro hn
    obtain ⟨s, hs, h⟩ := ih (by omega)
    obtain ⟨s', hs', h'⟩ := h.message (by omega)
    exact ⟨s', hs.trans hs', h'⟩

/-- **Twenty requests without a page stop the server**: `get_buffer` panics
with every buffer marked in use, though `serve` and the threads hold none. -/
theorem pageless_exhaust :
    ∃ s, NsReaches (fun m _ => m = pageless) 5#32 s
      ∧ s.pc = .panicked "NS: buffer overflow" none ∧ s.threads = [] ∧ s.held = []
      ∧ ∀ i < QUEUE_SIZE, s.buse i = true := by
  obtain ⟨s, hs, h⟩ := Hung.messages 5#32 QUEUE_SIZE le_rfl
  have hbuse : s.buse = fun i => decide (i < QUEUE_SIZE) := funext h.buse
  have hget : s.getReady = { s with pc := .panicked "NS: buffer overflow" none } := by
    have hfull : getBuffer s.buse = .error "NS: buffer overflow" := by
      rw [hbuse]
      rfl
    unfold Ns.getReady
    rw [hfull]
  refine ⟨s.getReady, hs.tail (NsStep.ready s h.pc), ?_⟩
  rw [hget]
  refine ⟨rfl, h.threads, ?_, fun i hi => ?_⟩
  · simp [Ns.held, ServePc.held, h.threads]
  · simpa [hbuse] using hi

end Jos.Net

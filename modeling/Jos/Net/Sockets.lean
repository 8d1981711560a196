/-
  Jos.Net.Sockets — **CLOSING A SHARED SOCKET** (`lib/sockets.c`, `lib/fd.c`, `lib/pageref.c`).

  A socket's `Fd` page may be mapped by several environments.  `close` asks
  `pageref` how many mappings are left, calls `nsipc_close` if it is one, and
  unmaps the page.  The count, the call to the network server, its reply and
  the unmapping are separate steps, and other environments run between them.

    • `closed_once`: if no count is taken while another close of the page is
      under way, the network server is told once, by the close that drops the
      last mapping.
    • `never_closed`: two closes that both count two mappings never tell it.
-/
import Jos.Kern.State

namespace Jos.Net

open Function (update update_of_ne update_self)

open Jos

variable {i : FdSlot} {s : SockSys}

/-! ## §1. The closing environments. -/

def MAXFD : Nat := 32

/-- A place where the page can be mapped: an environment's descriptor. -/
abbrev FdSlot := Fin NENV × Fin MAXFD

/-- Where a `close` is. -/
inductive ClosePc where
  | idle
  /-- `pageref` was 1: the `ipc_send` of `nsipc_close` comes next. -/
  | sending
  /-- In the `ipc_recv` of `nsipc_close`. -/
  | waiting
  /-- The `sys_page_unmap` of `fd_close` comes next. -/
  | unmapping
  deriving DecidableEq

/-- The page's mappings and the closes under way.  `told` lists the closes that
called `nsipc_close`, `dropped` is the mapping dropped last. -/
structure SockSys where
  mapped : Finset FdSlot
  pc : FdSlot → ClosePc
  told : List FdSlot
  dropped : Option FdSlot

/-- `pageref(fd)`: the page's 16-bit reference count. -/
def SockSys.pageref (s : SockSys) (i : FdSlot) : Nat :=
  if i ∈ s.mapped then s.mapped.card % 2 ^ 16 else 0

/-- The first steps of `close`, up to the test in `devsock_close`. -/
def SockSys.count (s : SockSys) (i : FdSlot) : SockSys :=
  { s with pc := update s.pc i (if s.pageref i = 1 then .sending else .unmapping) }

/-- One system call or IPC of one of the closes; a count is taken where `ok`
holds. -/
inductive SockStep (ok : SockSys → FdSlot → Prop) : SockSys → SockSys → Prop
  | count (s : SockSys) (i : FdSlot) (hm : i ∈ s.mapped) (hpc : s.pc i = .idle) (hok : ok s i) :
      SockStep ok s (s.count i)
  | send (s : SockSys) (i : FdSlot) (hpc : s.pc i = .sending) :
      SockStep ok s { s with pc := update s.pc i .waiting, told := s.told ++ [i] }
  | reply (s : SockSys) (i : FdSlot) (hpc : s.pc i = .waiting) :
      SockStep ok s { s with pc := update s.pc i .unmapping }
  | unmap (s : SockSys) (i : FdSlot) (hpc : s.pc i = .unmapping) :
      SockStep ok s { s with
        mapped := s.mapped.erase i, pc := update s.pc i .idle, dropped := some i }

/-- The page is mapped at `shared` and no close has begun. -/
def SockSys.start (shared : Finset FdSlot) : SockSys :=
  { mapped := shared, pc := fun _ => .idle, told := [], dropped := none }

def SockReaches (ok : SockSys → FdSlot → Prop) (shared : Finset FdSlot) : SockSys → Prop :=
  Relation.ReflTransGen (SockStep ok) (SockSys.start shared)

/-- The counter does not wrap: there are fewer slots than it can count. -/
theorem pageref_eq_card (h : i ∈ s.mapped) : s.pageref i = s.mapped.card := by
  have hle : s.mapped.card ≤ Fintype.card FdSlot := Finset.card_le_univ s.mapped
  have hcard : Fintype.card FdSlot = 32768 := by
    rw [Fintype.card_prod, Fintype.card_fin, Fintype.card_fin]
    rfl
  unfold SockSys.pageref
  rw [if_pos h, Nat.mod_eq_of_lt (by omega)]

/-! ## §2. One close at a time. -/

/-- No other close is between its count and its unmapping. -/
def Unhurried (s : SockSys) (i : FdSlot) : Prop := ∀ j, j ≠ i → s.pc j = .idle

/-- At most one close is under way, and it knows whether it is the last. -/
structure Alone (s : SockSys) : Prop where
  single : ∀ i, s.pc i ≠ .idle → i ∈ s.mapped ∧ ∀ j, j ≠ i → s.pc j = .idle
  /-- Before the server is told, a mapping is left; a close that will tell it
  holds the only one, and one that will not leaves another. -/
  before : s.told = [] → s.mapped.Nonempty ∧ (∀ i, s.pc i = .sending → s.mapped = {i})
    ∧ (∀ i, s.pc i ≠ .waiting) ∧ ∀ i, s.pc i = .unmapping → (s.mapped.erase i).Nonempty
  /-- Afterwards the close that told it drops the last mapping. -/
  after : s.told ≠ [] → ∃ i, s.told = [i]
    ∧ ((s.mapped = {i} ∧ (s.pc i = .waiting ∨ s.pc i = .unmapping))
      ∨ (s.mapped = ∅ ∧ s.dropped = some i))

theorem Alone.start {shared : Finset FdSlot} (hne : shared.Nonempty) :
    Alone (SockSys.start shared) where
  single i hi := absurd rfl hi
  before _ := by
    refine ⟨hne, ?_, ?_, ?_⟩
    · intro i hi
      cases hi
    · intro i hi
      cases hi
    · intro i hi
      cases hi
  after h := absurd rfl h

/-- Moving the one close that is under way keeps it the only one. -/
theorem single_update {pc : ClosePc} (hm : i ∈ s.mapped)
    (hothers : ∀ j, j ≠ i → s.pc j = .idle) (k : FdSlot) (hk : update s.pc i pc k ≠ .idle) :
    k ∈ s.mapped ∧ ∀ j, j ≠ k → update s.pc i pc j = .idle := by
  have hki : k = i := by
    by_contra hne
    rw [update_of_ne hne] at hk
    exact hk (hothers k hne)
  subst hki
  refine ⟨hm, fun j hj => ?_⟩
  rw [update_of_ne hj]
  exact hothers j hj

/-- Where a close is that differs from its new position, it is another one. -/
theorem pc_update {i k : FdSlot} {pc pc' : ClosePc}
    (hothers : ∀ j, j ≠ i → s.pc j = .idle) (hk : update s.pc i pc k = pc')
    (hne : pc' ≠ .idle) : k = i ∧ pc = pc' := by
  by_cases hki : k = i
  · subst hki
    rw [update_self] at hk
    exact ⟨rfl, hk⟩
  · rw [update_of_ne hki, hothers k hki] at hk
    exact absurd hk.symm hne

section
variable (h : Alone s)
include h

/-- While a close other than the one that told the server can act, nobody told it. -/
theorem Alone.told_nil (hm : i ∈ s.mapped)
    (hw : s.pc i ≠ .waiting) (hu : s.pc i ≠ .unmapping) : s.told = [] := by
  by_contra htold
  obtain ⟨k, _, hk | hk⟩ := h.after htold
  · obtain rfl : i = k := Finset.mem_singleton.mp (hk.1 ▸ hm)
    exact hk.2.elim hw hu
  · rw [hk.1] at hm
    exact absurd hm (Finset.notMem_empty i)

theorem Alone.count (hm : i ∈ s.mapped)
    (hpc : s.pc i = .idle) (hok : Unhurried s i) : Alone (s.count i) := by
  have hcard := pageref_eq_card hm
  have hnone := h.told_nil hm (by rw [hpc]; decide) (by rw [hpc]; decide)
  refine ⟨single_update hm hok, fun _ => ⟨(h.before hnone).1, ?_, ?_, ?_⟩, fun h' =>
    absurd hnone h'⟩
  · intro k hk
    obtain ⟨rfl, hpc'⟩ := pc_update hok hk (by decide)
    have hone : s.pageref k = 1 := by
      by_contra hne
      rw [if_neg hne] at hpc'
      cases hpc'
    rw [hcard] at hone
    obtain ⟨a, ha⟩ := Finset.card_eq_one.mp hone
    rw [ha, Finset.mem_singleton] at hm
    rw [hm]
    exact ha
  · intro k hk
    obtain ⟨_, hpc'⟩ := pc_update hok hk (by decide)
    split at hpc' <;> cases hpc'
  · intro k hk
    obtain ⟨rfl, hpc'⟩ := pc_update hok hk (by decide)
    have hmany : s.pageref k ≠ 1 := by
      intro hone
      rw [if_pos hone] at hpc'
      cases hpc'
    refine Finset.card_pos.mp ?_
    show 0 < (s.mapped.erase k).card
    rw [Finset.card_erase_of_mem hm]
    have := Finset.card_pos.mpr ⟨k, hm⟩
    omega

theorem Alone.send (hpc : s.pc i = .sending) :
    Alone { s with pc := update s.pc i .waiting, told := s.told ++ [i] } := by
  obtain ⟨hm, hothers⟩ := h.single i (by rw [hpc]; decide)
  have hnone := h.told_nil hm (by rw [hpc]; decide) (by rw [hpc]; decide)
  refine ⟨single_update hm hothers, fun h' => absurd h' (by simp), fun _ => ⟨i, ?_, .inl ⟨?_, ?_⟩⟩⟩
  · rw [hnone, List.nil_append]
  · exact (h.before hnone).2.1 i hpc
  · exact .inl (update_self ..)

theorem Alone.reply (hpc : s.pc i = .waiting) :
    Alone { s with pc := update s.pc i .unmapping } := by
  obtain ⟨hm, hothers⟩ := h.single i (by rw [hpc]; decide)
  refine ⟨single_update hm hothers, fun h' => absurd hpc ((h.before h').2.2.1 i), fun h' => ?_⟩
  obtain ⟨k, hk, hk' | hk'⟩ := h.after h'
  · obtain rfl : i = k := Finset.mem_singleton.mp (hk'.1 ▸ hm)
    exact ⟨i, hk, .inl ⟨hk'.1, .inr (update_self ..)⟩⟩
  · exact ⟨k, hk, .inr hk'⟩

theorem Alone.unmap (hpc : s.pc i = .unmapping) :
    Alone { s with
      mapped := s.mapped.erase i, pc := update s.pc i .idle, dropped := some i } := by
  obtain ⟨hm, hothers⟩ := h.single i (by rw [hpc]; decide)
  have hidle : ∀ k, update s.pc i .idle k = .idle := by
    intro k
    by_cases hki : k = i
    · rw [hki, update_self]
    · rw [update_of_ne hki]
      exact hothers k hki
  refine ⟨fun k hk => absurd (hidle k) hk, fun h' => ⟨(h.before h').2.2.2 i hpc, ?_, ?_, ?_⟩,
    fun h' => ?_⟩
  · intro k hk
    cases (hidle k).symm.trans hk
  · intro k hk
    cases (hidle k).symm.trans hk
  · intro k hk
    cases (hidle k).symm.trans hk
  · obtain ⟨k, hk, hk' | hk'⟩ := h.after h'
    · obtain rfl : i = k := Finset.mem_singleton.mp (hk'.1 ▸ hm)
      refine ⟨i, hk, .inr ⟨?_, rfl⟩⟩
      rw [hk'.1]
      exact Finset.erase_singleton i
    · rw [hk'.1] at hm
      exact absurd hm (Finset.notMem_empty i)

end

/-- **One step keeps it so.** -/
theorem Alone.step {s s' : SockSys} (h : Alone s) (hs : SockStep Unhurried s s') : Alone s' := by
  cases hs with
  | count i hm hpc hok => exact h.count hm hpc hok
  | send i hpc => exact h.send hpc
  | reply i hpc => exact h.reply hpc
  | unmap i hpc => exact h.unmap hpc

theorem Alone.reached {shared : Finset FdSlot} (hne : shared.Nonempty)
    (h : SockReaches Unhurried shared s) : Alone s := by
  induction h with
  | refl => exact Alone.start hne
  | tail _ hs ih => exact ih.step hs

/-- **THE SERVER IS TOLD ONCE.**  If no close takes its count while another
close of the page is under way, then in every state reached the server was told
at most once, it is only told by a close that holds the one mapping left, and
once the last mapping is gone it was told, by the close that dropped it. -/
theorem closed_once {shared : Finset FdSlot} {s : SockSys} (hne : shared.Nonempty)
    (h : SockReaches Unhurried shared s) :
    s.told.length ≤ 1 ∧ (∀ i, s.pc i = .sending → s.mapped = {i})
      ∧ (s.mapped = ∅ → ∃ i, s.told = [i] ∧ s.dropped = some i) := by
  have ha := Alone.reached hne h
  by_cases htold : s.told = []
  · obtain ⟨hleft, hsend, _, _⟩ := ha.before htold
    exact ⟨by simp [htold], hsend, fun h0 => absurd h0 hleft.ne_empty⟩
  · obtain ⟨k, hk, hk'⟩ := ha.after htold
    refine ⟨by simp [hk], fun i hi => ?_, fun h0 => ?_⟩
    · obtain ⟨hm, _⟩ := ha.single i (by rw [hi]; decide)
      exact absurd (ha.told_nil hm (by rw [hi]; decide) (by rw [hi]; decide)) htold
    · rcases hk' with hk' | hk'
      · rw [hk'.1] at h0
        exact absurd h0 (Finset.singleton_ne_empty k)
      · exact ⟨k, hk, hk'.2⟩

/-- Descriptor 0 of the first and of the second environment. -/
def firstFd : FdSlot := (⟨0, by decide⟩, ⟨0, by decide⟩)
def secondFd : FdSlot := (⟨1, by decide⟩, ⟨0, by decide⟩)

/-- Two sharers close one after the other: the first only unmaps, the second tells the
server. -/
theorem closed_once_two :
    ∃ s, SockReaches Unhurried {firstFd, secondFd} s ∧ s.mapped = ∅ ∧ s.told = [secondFd]
      ∧ ∃ i, s.told = [i] ∧ s.dropped = some i := by
  have hcount := @SockStep.count Unhurried (SockSys.start {firstFd, secondFd}) firstFd (by decide)
    rfl fun _ _ => rfl
  have hunmap : SockStep Unhurried ((SockSys.start {firstFd, secondFd}).count firstFd)
      { SockSys.start {secondFd} with dropped := some firstFd } := by
    convert SockStep.unmap ((SockSys.start {firstFd, secondFd}).count firstFd) firstFd
      (by decide) using 2
    · decide
    · simp [SockSys.count, SockSys.start]
    · rfl
  have hcount' := @SockStep.count Unhurried
    { SockSys.start {secondFd} with dropped := some firstFd } secondFd (by decide) rfl fun _ _ => rfl
  have hsend := @SockStep.send Unhurried _ secondFd (show (SockSys.count
    { SockSys.start {secondFd} with dropped := some firstFd } secondFd).pc secondFd = _ by decide)
  have hreach := ((Relation.ReflTransGen.single hcount).tail hunmap |>.tail hcount').tail hsend
    |>.tail (SockStep.reply _ secondFd (by decide)) |>.tail (SockStep.unmap _ secondFd (by decide))
  exact ⟨_, hreach, by decide, rfl, (closed_once (by decide) hreach).2.2 (by decide)⟩

/-! ## §3. Two closes at a time. -/

/-- **Nobody tells the server**: two environments count two mappings each, then
both unmap. -/
theorem never_closed :
    ∃ s, SockReaches (fun _ _ => True) {firstFd, secondFd} s ∧ s.mapped = ∅
      ∧ (∀ i, s.pc i = .idle) ∧ s.told = [] := by
  have hstart := @SockStep.count (fun _ _ => True) (SockSys.start {firstFd, secondFd}) firstFd
    (by decide) rfl trivial
  have hboth := @SockStep.count (fun _ _ => True)
    ((SockSys.start {firstFd, secondFd}).count firstFd) secondFd (by decide) (by decide) trivial
  have hreach := (Relation.ReflTransGen.single hstart).tail hboth
    |>.tail (SockStep.unmap _ firstFd (by decide)) |>.tail (SockStep.unmap _ secondFd (by decide))
  refine ⟨_, hreach, by decide, fun i => ?_, rfl⟩
  by_cases h1 : i = secondFd
  · subst h1
    rfl
  · by_cases h0 : i = firstFd
    · subst h0
      rfl
    · simp [SockSys.count, SockSys.start, update_of_ne h1, update_of_ne h0]

end Jos.Net

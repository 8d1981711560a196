/-
  Jos.Env.Frame — **WHAT CODE ON PAGES AND USER MEMORY LEAVES ALONE.**

  `EnvFrame s s'`: the table of environments, its free list and the CPUs are
  the same in both states, translation buffers apart.  Every function of
  `kern/pmap.c`, every access to user memory and the card's data path is such
  a step, from any state and however it ends; and none of them stops in the
  check of `PADDR`, which is for page directories.
-/
import Jos.Kern.Trap

namespace Jos

open Exec

/-! ## §1. Records of environments and CPUs. -/

namespace Kernel

variable (s : Kernel) (e i : Nat) (v w : Env) (a b : CpuInfo)

@[simp] theorem setEnv_self : (s.setEnv e v).envs e = v := Function.update_self ..

theorem setEnv_of_ne {i e : Nat} (h : i ≠ e) : (s.setEnv e v).envs i = s.envs i :=
  Function.update_of_ne h _ _

@[simp] theorem setEnv_setEnv : (s.setEnv e v).setEnv e w = s.setEnv e w := by
  unfold setEnv
  simp

@[simp] theorem setEnv_cpunum : (s.setEnv e v).cpunum = s.cpunum := (rfl)

@[simp] theorem setEnv_cpus : (s.setEnv e v).cpus = s.cpus := rfl

@[simp] theorem setEnv_curenv : (s.setEnv e v).curenv = s.curenv := rfl

@[simp] theorem setCpu_self {c : Nat} (h : c = s.cpunum) : (s.setCpu a).cpus c = a := by
  rw [h]
  exact Function.update_self ..

theorem setCpu_of_ne {c : Nat} (h : c ≠ s.cpunum) : (s.setCpu a).cpus c = s.cpus c :=
  Function.update_of_ne h _ _

@[simp] theorem setCpu_setCpu : (s.setCpu a).setCpu b = s.setCpu b := by
  unfold setCpu
  simp

@[simp] theorem setCpu_cpunum : (s.setCpu a).cpunum = s.cpunum := (rfl)

@[simp] theorem setCpu_envs : (s.setCpu a).envs = s.envs := rfl

@[simp] theorem setCpu_kernPgdir : (s.setCpu a).kernPgdir = s.kernPgdir := rfl

@[simp] theorem setCpu_curenv : (s.setCpu a).curenv = a.cpuEnv := by
  unfold curenv
  simp

/-- Environments and CPUs are stored apart. -/
@[simp] theorem setCpu_setEnv : (s.setCpu a).setEnv e v = (s.setEnv e v).setCpu a := rfl

end Kernel

/-! ## §2. The frame. -/

/-- Environments and CPUs are untouched. -/
structure EnvFrame (s s' : Kernel) : Prop where
  npages : s'.npages = s.npages
  kernPgdir : s'.kernPgdir = s.kernPgdir
  envs : s'.envs = s.envs
  envFreeList : s'.envFreeList = s.envFreeList
  cpunum : s'.cpunum = s.cpunum
  cpus : ∀ c, s'.cpus c = { s.cpus c with tlb := (s'.cpus c).tlb }
  fsKin : s'.fsKin = s.fsKin

theorem EnvFrame.refl (s : Kernel) : EnvFrame s s :=
  ⟨rfl, rfl, rfl, rfl, rfl, fun _ => rfl, rfl⟩

theorem EnvFrame.trans {s t u : Kernel} (h : EnvFrame s t) (h' : EnvFrame t u) : EnvFrame s u where
  npages := h'.npages.trans h.npages
  kernPgdir := h'.kernPgdir.trans h.kernPgdir
  envs := h'.envs.trans h.envs
  envFreeList := h'.envFreeList.trans h.envFreeList
  cpunum := h'.cpunum.trans h.cpunum
  cpus c := by rw [h'.cpus c, h.cpus c]
  fsKin := h'.fsKin.trans h.fsKin

instance : IsPreorder Kernel EnvFrame where
  refl := EnvFrame.refl
  trans _ _ _ := EnvFrame.trans

theorem EnvFrame.curenv {s s' : Kernel} (h : EnvFrame s s') : s'.curenv = s.curenv := by
  unfold Kernel.curenv
  rw [h.cpunum, h.cpus]

/-- The same change to a record. -/
theorem EnvFrame.setEnv {s t : Kernel} (h : EnvFrame s t) (e : Nat) (f : Env → Env) :
    EnvFrame (s.setEnv e (f (s.envs e))) (t.setEnv e (f (t.envs e))) := by
  refine ⟨h.npages, h.kernPgdir, ?_, h.envFreeList, h.cpunum, h.cpus, h.fsKin⟩
  show Function.update t.envs e (f (t.envs e)) = Function.update s.envs e (f (s.envs e))
  rw [h.envs]

/-- Pages, memory, the card and the ghosts may change. -/
theorem envFrame_of_data (s : Kernel) (pages : Nat → PageInfo) (fl : Option Nat)
    (m : Nat → Nat → Word) (ticks : Word) (d : E1000) (w : Bool) (addr : Word) (acc : List Access) :
    EnvFrame s { s with
      pages := pages, pageFreeList := fl, mem := m, ticks := ticks, e1000 := d,
      refWrapped := w, userMemCheckAddr := addr, accesses := acc } :=
  ⟨rfl, rfl, rfl, rfl, rfl, fun _ => rfl, rfl⟩

theorem envFrame_tlb (s : Kernel) (tlb : Nat → Option Word) :
    EnvFrame s (s.setCpu { s.cpus s.cpunum with tlb := tlb }) := by
  refine ⟨rfl, rfl, rfl, rfl, rfl, fun c => ?_, rfl⟩
  by_cases hc : c = s.cpunum
  · subst hc
    simp [Kernel.setCpu]
  · simp [Kernel.setCpu, Function.update_of_ne hc]

/-- `PADDR` of a page directory that is not there. -/
def badPaddr : Stop := .panic "PADDR called with invalid kva %08lx"

/-- The kernel stopped, and not in `PADDR`. -/
def Fault (x : Stop) : Prop := (x.isCrash && x != badPaddr) = true

/-! ## §3. Pages and page tables. -/

theorem kaddr_keeps (pa : Word) : Keeps EnvFrame Fault (kaddr pa) :=
  keeps_get.bind fun _ => keeps_ite (keeps_throw _ rfl) (keeps_pure _)

theorem pa2page_keeps (pa : Word) : Keeps EnvFrame Fault (pa2page pa) :=
  keeps_get.bind fun _ => keeps_ite (keeps_throw _ rfl) (keeps_pure _)

theorem page2kva_keeps (pp : Nat) : Keeps EnvFrame Fault (page2kva pp) := kaddr_keeps _

theorem clearPage_keeps (p : Nat) : Keeps EnvFrame Fault (clearPage p) :=
  keeps_modify fun s => envFrame_of_data s _ _ _ _ _ _ _ _

theorem setWord_keeps (f : Kernel → Nat × Nat × Word) :
    Keeps EnvFrame Fault (modify fun s => s.setWord (f s).1 (f s).2.1 (f s).2.2 : KM PUnit) :=
  keeps_modify fun s => envFrame_of_data s _ _ _ _ _ _ _ _

theorem setPage_keeps (f : Kernel → Nat × PageInfo) :
    Keeps EnvFrame Fault (modify fun s => s.setPage (f s).1 (f s).2 : KM PUnit) :=
  keeps_modify fun s => envFrame_of_data s _ _ _ _ _ _ _ _

theorem pageAlloc_keeps (flags : Nat) : Keeps EnvFrame Fault (pageAlloc flags) := by
  refine keeps_get_bind fun s => ?_
  cases s.pageFreeList with
  | none => exact EnvFrame.refl s
  | some p =>
    show wp (if _ then _ else _) _ _ s
    split
    · exact ⟨rfl, EnvFrame.refl s⟩
    · refine wp_bind_ok rfl ?_
      have htake : EnvFrame s { s.setPage p { s.pages p with ppLink := none } with
          pageFreeList := (s.pages p).ppLink } := envFrame_of_data s _ _ _ _ _ _ _ _
      refine Keeps.after ?_ htake
      exact keeps_ite ((page2kva_keeps p).bind fun q => (clearPage_keeps q).bind fun _ =>
        keeps_pure _) (keeps_pure _)

theorem pageFree_keeps (pp : Nat) : Keeps EnvFrame Fault (pageFree pp) := by
  refine keeps_get_bind fun s => ?_
  split
  · exact ⟨rfl, EnvFrame.refl s⟩
  · split
    · exact ⟨rfl, EnvFrame.refl s⟩
    · exact envFrame_of_data s _ _ _ _ _ _ _ _

theorem pageDecref_keeps (pp : Nat) : Keeps EnvFrame Fault (pageDecref pp) := by
  refine keeps_get_bind fun s => wp_bind_ok rfl ?_
  exact (keeps_ite (pageFree_keeps pp) (keeps_pure ())).after
    (envFrame_of_data s _ _ _ _ _ _ _ _)

theorem pgdirWalk_keeps (pgdir : Nat) (va : Word) (create : Bool) :
    Keeps EnvFrame Fault (pgdirWalk pgdir va create) := by
  refine keeps_get.bind fun s => keeps_ite ?_ (keeps_ite ?_ (keeps_pure _))
  · exact (kaddr_keeps _).bind fun _ => keeps_pure _
  · refine (pageAlloc_keeps 1).bind fun r => ?_
    cases r with
    | none => exact keeps_pure _
    | some pg =>
      refine (page2kva_keeps pg).bind fun q => (clearPage_keeps q).bind fun _ => ?_
      refine (setPage_keeps fun s => (pg, { s.pages pg with
        ppRef := (s.pages pg).ppRef + 1 })).bind fun _ => ?_
      refine (setWord_keeps fun _ => (pgdir, pdx va,
        page2pa pg ||| PTE_P ||| PTE_U ||| PTE_W)).bind fun _ => ?_
      exact keeps_get.bind fun _ => (kaddr_keeps _).bind fun _ => keeps_pure _

theorem invlpg_keeps (va : Word) : Keeps EnvFrame Fault (invlpg va) :=
  keeps_modify fun s => envFrame_tlb s _

theorem tlbInvalidate_keeps (pgdir : Nat) (va : Word) : Keeps EnvFrame Fault
    (tlbInvalidate pgdir va) := by
  refine keeps_get.bind fun s => ?_
  cases s.curenv with
  | none => exact invlpg_keeps va
  | some e => exact keeps_ite (invlpg_keeps va) (keeps_pure ())

theorem pageLookup_keeps (pgdir : Nat) (va : Word) : Keeps EnvFrame Fault (pageLookup pgdir va) :=
    by
  refine (pgdirWalk_keeps pgdir va false).bind fun r => ?_
  cases r with
  | none => exact keeps_pure _
  | some x =>
    refine keeps_get.bind fun s => keeps_ite ?_ (keeps_pure _)
    exact (pa2page_keeps _).bind fun _ => keeps_pure _

theorem pageRemove_keeps (pgdir : Nat) (va : Word) : Keeps EnvFrame Fault (pageRemove pgdir va) :=
    by
  refine (pageLookup_keeps pgdir va).bind fun r => ?_
  cases r with
  | none => exact keeps_pure _
  | some x =>
    refine (pageDecref_keeps _).bind fun _ => (tlbInvalidate_keeps _ _).bind fun _ => ?_
    exact setWord_keeps fun _ => (x.2.1, x.2.2, 0#32)

theorem incRef_keeps (pp : Nat) : Keeps EnvFrame Fault (incRef pp) :=
  keeps_modify fun s => envFrame_of_data s _ _ _ _ _ _ _ _

theorem pageInsert_keeps (pgdir pp : Nat) (va perm : Word) :
    Keeps EnvFrame Fault (pageInsert pgdir pp va perm) := by
  refine (pgdirWalk_keeps pgdir va true).bind fun r => ?_
  cases r with
  | none => exact keeps_pure _
  | some x =>
    refine (incRef_keeps pp).bind fun _ => keeps_get.bind fun s => ?_
    have hend : Keeps EnvFrame Fault (do
        modify fun s => s.setWord x.1 x.2 (page2pa pp ||| perm ||| PTE_P)
        modify fun s => s.setWord pgdir (pdx va) (s.mem pgdir (pdx va) ||| (perm ||| PTE_P))
        pure 0#32 : KM Word) :=
      (setWord_keeps fun _ => (x.1, x.2, page2pa pp ||| perm ||| PTE_P)).bind fun _ =>
        (setWord_keeps fun s => (pgdir, pdx va,
          s.mem pgdir (pdx va) ||| (perm ||| PTE_P))).bind fun _ => keeps_pure _
    split
    · exact (tlbInvalidate_keeps pgdir va).bind fun _ =>
        (pageRemove_keeps pgdir va).bind fun _ => hend
    · exact hend

/-! ## §4. User memory and the card. -/

theorem derefCurenv_keeps : Keeps EnvFrame Fault derefCurenv := by
  refine keeps_get.bind fun s => ?_
  cases s.curenv with
  | none => exact keeps_throw _ rfl
  | some e => exact keeps_pure e

theorem derefPgdir_keeps (e : Nat) : Keeps EnvFrame Fault (derefPgdir e) := by
  refine keeps_get.bind fun s => ?_
  cases (s.envs e).envPgdir with
  | none => exact keeps_throw _ rfl
  | some d => exact keeps_pure d

theorem setCheckAddr_keeps (addr : Word) :
    Keeps EnvFrame Fault (modify fun s => { s with userMemCheckAddr := addr } : KM PUnit) :=
  keeps_modify fun s => envFrame_of_data s _ _ _ _ _ _ _ _

theorem userMemCheckLoop_keeps (env : Nat) (start bound perm : Word) (n : Nat) :
    Keeps EnvFrame Fault (userMemCheckLoop env start bound perm n) := by
  induction n with
  | zero => exact keeps_pure _
  | succ n ih =>
    refine keeps_get.bind fun s => keeps_ite ?_ (keeps_pure _)
    refine (derefPgdir_keeps env).bind fun d => (pgdirWalk_keeps _ _ _).bind fun r => ?_
    have hrest : ∀ bad : Bool, Keeps EnvFrame Fault (if bad = true then do
          modify fun t => { t with
            userMemCheckAddr := if s.userMemCheckAddr ≠ start then rounddown s.userMemCheckAddr
              else s.userMemCheckAddr }
          pure (-E_FAULT)
        else do
          modify fun t => { t with userMemCheckAddr := s.userMemCheckAddr + PGSIZE }
          userMemCheckLoop env start bound perm n : KM Word) := fun bad =>
      keeps_ite ((setCheckAddr_keeps _).bind fun _ => keeps_pure _)
        ((setCheckAddr_keeps _).bind fun _ => ih)
    cases r with
    | none => exact (keeps_pure true).bind hrest
    | some x => exact keeps_get.bind fun _ => (keeps_pure _).bind hrest

theorem userMemCheck_keeps (env : Nat) (va len perm : Word) :
    Keeps EnvFrame Fault (userMemCheck env va len perm) := by
  unfold userMemCheck
  generalize 2 ^ 20 = n
  exact (setCheckAddr_keeps va).bind fun _ => userMemCheckLoop_keeps _ _ _ _ n

theorem noteAccess_keeps (a : Access) :
    Keeps EnvFrame Fault (modify fun s => { s with accesses := a :: s.accesses } : KM PUnit) :=
  keeps_modify fun s => envFrame_of_data s _ _ _ _ _ _ _ _

theorem loadByte_keeps (va : Word) : Keeps EnvFrame Fault (loadByte va) := by
  refine (noteAccess_keeps _).bind fun _ => keeps_get.bind fun s => ?_
  cases translate s.mem (s.cpus s.cpunum).cr3 va with
  | none => exact keeps_throw _ rfl
  | some x => exact keeps_pure _

theorem storeByte_keeps (va : Word) (b : BitVec 8) : Keeps EnvFrame Fault (storeByte va b) := by
  refine (noteAccess_keeps _).bind fun _ => keeps_get.bind fun s => ?_
  cases translate s.mem (s.cpus s.cpunum).cr3 va with
  | none => exact keeps_throw _ rfl
  | some x =>
    refine keeps_ite (keeps_throw _ rfl) (keeps_ite (keeps_throw _ rfl) ?_)
    exact setWord_keeps fun t => (ptePage x.2, pgoff va / 4,
      putByte (t.mem (ptePage x.2) (pgoff va / 4)) (pgoff va % 4) b)

theorem loadWord_keeps (va : Word) : Keeps EnvFrame Fault (loadWord va) :=
  (loadByte_keeps _).bind fun _ => (loadByte_keeps _).bind fun _ =>
    (loadByte_keeps _).bind fun _ => (loadByte_keeps _).bind fun _ => keeps_pure _

theorem storeWord_keeps (va w : Word) : Keeps EnvFrame Fault (storeWord va w) :=
  (storeByte_keeps _ _).bind fun _ => (storeByte_keeps _ _).bind fun _ =>
    (storeByte_keeps _ _).bind fun _ => storeByte_keeps _ _

theorem copyOut_keeps (va : Word) (src : Nat → BitVec 8) (n : Nat) :
    Keeps EnvFrame Fault (copyOut va src n) :=
  keeps_forUp (fun _ => storeByte_keeps _ _) 0 n

theorem printStr_keeps (p : Word) (precision : Int) (n : Nat) :
    Keeps EnvFrame Fault (printStr p precision n) := by
  induction n generalizing p precision with
  | zero => exact keeps_pure ()
  | succ n ih =>
    exact (loadByte_keeps p).bind fun ch => keeps_ite (keeps_pure ()) (keeps_ite (ih _ _)
      (keeps_ite (ih _ _) (keeps_pure ())))

theorem loadRegs_keeps (va : Word) : Keeps EnvFrame Fault (loadRegs va) := by
  repeat refine (loadWord_keeps _).bind fun _ => ?_
  exact keeps_pure _

theorem loadTrapframe_keeps (va : Word) : Keeps EnvFrame Fault (loadTrapframe va) := by
  refine (loadRegs_keeps va).bind fun _ => ?_
  repeat refine (loadWord_keeps _).bind fun _ => ?_
  exact keeps_pure _

theorem storeRegs_keeps (va : Word) (r : PushRegs) : Keeps EnvFrame Fault (storeRegs va r) := by
  repeat refine (storeWord_keeps _ _).bind fun _ => ?_
  exact storeWord_keeps _ _

theorem modifyE1000_keeps (f : E1000 → E1000) : Keeps EnvFrame Fault (modifyE1000 f) :=
  keeps_modify fun s => envFrame_of_data s _ _ _ _ _ _ _ _

theorem copyPacketIn_keeps (idx : Nat) (pck : Word) (n : Nat) :
    Keeps EnvFrame Fault (copyPacketIn idx pck n) :=
  keeps_forUp (fun _ => (loadByte_keeps _).bind fun _ => modifyE1000_keeps _) 0 n

theorem e1000Transmit_keeps (pck length : Word) : Keeps EnvFrame Fault
    (e1000Transmit pck length) := by
  refine keeps_ite (keeps_pure _) (keeps_get.bind fun s => keeps_ite (keeps_pure _) ?_)
  exact (copyPacketIn_keeps _ _ _).bind fun _ => (modifyE1000_keeps _).bind fun _ =>
    (modifyE1000_keeps _).bind fun _ => keeps_pure _

theorem e1000Receive_keeps (pck length : Word) : Keeps EnvFrame Fault (e1000Receive pck length) :=
    by
  refine keeps_get.bind fun s => keeps_ite (keeps_pure _) (keeps_ite (keeps_throw _ rfl) ?_)
  exact (storeWord_keeps _ _).bind fun _ => (loadWord_keeps _).bind fun _ =>
    (copyOut_keeps _ _ _).bind fun _ => (modifyE1000_keeps _).bind fun _ =>
      (modifyE1000_keeps _).bind fun _ => keeps_pure _

theorem e1000GetMac_keeps (macAddr : Word) : Keeps EnvFrame Fault (e1000GetMac macAddr) :=
  keeps_get.bind fun _ => (storeWord_keeps _ _).bind fun _ =>
    (storeByte_keeps _ _).bind fun _ => storeByte_keeps _ _

theorem timeTick_keeps : Keeps EnvFrame Fault timeTick := by
  refine Keeps.bind (keeps_modify fun s => envFrame_of_data s _ _ _ _ _ _ _ _) fun _ => ?_
  exact keeps_get.bind fun _ => keeps_get.bind fun _ => keeps_ite (keeps_throw _ rfl) (keeps_pure _)

/-! ## §5. The calls on memory. -/

theorem envid2env_keeps (envid : Word) (checkperm : Bool) :
    Keeps EnvFrame Fault (envid2env envid checkperm) := by
  refine keeps_ite (derefCurenv_keeps.bind fun _ => keeps_pure _) ?_
  refine keeps_get.bind fun s => keeps_ite (keeps_pure _) (keeps_ite ?_ (keeps_pure _))
  refine keeps_ite (keeps_pure _) ?_
  exact derefCurenv_keeps.bind fun _ => keeps_ite (keeps_pure _) (keeps_pure _)

theorem sysPageAlloc_keeps (envid va perm : Word) :
    Keeps EnvFrame Fault (sysPageAlloc envid va perm) := by
  refine keeps_ite (keeps_pure _) (keeps_ite (keeps_pure _) ?_)
  refine (envid2env_keeps envid true).bind fun r => ?_
  cases r with
  | error r => exact keeps_pure _
  | ok e =>
    refine (pageAlloc_keeps 1).bind fun r => ?_
    cases r with
    | none => exact keeps_pure _
    | some pp =>
      exact (derefPgdir_keeps e).bind fun d => (pageInsert_keeps _ _ _ _).bind fun _ =>
        keeps_ite ((pageFree_keeps pp).bind fun _ => keeps_pure _) (keeps_pure _)

theorem sysPageMap_keeps (srcenvid srcva dstenvid dstva perm : Word) :
    Keeps EnvFrame Fault (sysPageMap srcenvid srcva dstenvid dstva perm) := by
  refine keeps_ite (keeps_throw _ rfl) (keeps_ite (keeps_throw _ rfl) ?_)
  refine (envid2env_keeps srcenvid true).bind fun r => ?_
  cases r with
  | error r => exact keeps_pure _
  | ok src =>
    refine (envid2env_keeps dstenvid true).bind fun r => ?_
    cases r with
    | error r => exact keeps_pure _
    | ok dst =>
      refine (derefPgdir_keeps src).bind fun d => (pageLookup_keeps d srcva).bind fun r => ?_
      cases r with
      | none => exact keeps_throw _ rfl
      | some x =>
        refine keeps_get.bind fun _ => keeps_ite (keeps_throw _ rfl) ?_
        exact (derefPgdir_keeps dst).bind fun _ => (pageInsert_keeps _ _ _ _).bind fun _ =>
          keeps_ite (keeps_throw _ rfl) (keeps_pure _)

theorem sysPageUnmap_keeps (envid va : Word) : Keeps EnvFrame Fault (sysPageUnmap envid va) := by
  refine keeps_ite (keeps_pure _) ((envid2env_keeps envid true).bind fun r => ?_)
  cases r with
  | error r => exact keeps_pure _
  | ok e =>
    exact (derefPgdir_keeps e).bind fun _ => (pageRemove_keeps _ _).bind fun _ => keeps_pure _

end Jos

/-
  Jos.Fs.ReqPage — **HOW THE SERVER USES THE REQUEST PAGE.**

  `serve` tests that a page came with the request, and nothing else about it.
  Most handlers read the page, and those of `FSREQ_READ` and `FSREQ_STAT` write
  their reply over the request.

    • `serve_survives_iff` : the server survives exactly the requests whose page it
      can read, and, where it has something to write there, write.
-/
import Jos.Fs.ReadSeq

namespace Jos

open Exec

/-! ## §1. The handlers, for any property of their parts. -/

/-- `P` holds of the parts the handlers are made of; `Slot` says which slots
`openfile_lookup` finds. -/
structure HandlerRules (P : ∀ {α : Type}, SrvM α → Prop) (Slot : Nat → Prop) : Prop where
  pure {α : Type} (a : α) : P (pure a : SrvM α)
  bind {α β : Type} {m : SrvM α} {k : α → SrvM β} (hm : P m) (hk : ∀ a, P (k a)) : P (m >>= k)
  reqByte (k : Nat) : P (reqByte k)
  lookup {k : Except Word Nat → SrvM Word} (herr : ∀ r, P (k (.error r)))
    (hok : ∀ i, Slot i → P (k (.ok i))) : P (lookupReq >>= k)
  openFileOf (i : Nat) : P (openFileOf i)
  getOffset {i : Nat} (hi : Slot i) : P (getOffset i)
  addOffset {i : Nat} (hi : Slot i) (r : Word) : P (addOffset i r)
  load (b i : Nat) : P (onDisk (load b i))
  diskByte (a : Nat) : P (onDisk (diskByte a))
  diskBytes (a n : Nat) : P (onDisk (diskBytes a n))
  putDiskBytes (a : Nat) (xs : List Byte) : P (onDisk (putDiskBytes a xs))
  getBlock (f : FileP) (filebno : Word) : P (onDisk (fileGetBlock f filebno))
  setSize (f : FileP) (newsize : Word) : P (onDisk (fileSetSize f newsize))
  overrun : P (throw (.panic "strcpy") : SrvM Unit)

theorem HandlerRules.ite {P : ∀ {α : Type}, SrvM α → Prop} {Slot : Nat → Prop}
    (_ : HandlerRules P Slot) {α : Type} {c : Prop} [Decidable c] {m n : SrvM α} (hm : P m)
    (hn : P n) : P (if c then m else n) := by
  split
  · exact hm
  · exact hn

section

variable {P : ∀ {α : Type}, SrvM α → Prop} {Slot : Nat → Prop} (hP : HandlerRules P Slot)

include hP

theorem HandlerRules.reqBytes (n : Nat) : ∀ k, P (reqBytes k n) := by
  induction n with
  | zero => exact fun _ => hP.pure []
  | succ n ih =>
    intro k
    exact hP.bind (hP.reqByte k) fun x => hP.bind (ih (k + 1)) fun xs => hP.pure _

theorem HandlerRules.reqWord (k : Nat) : P (reqWord k) :=
  hP.bind (hP.reqByte k) fun _ => hP.bind (hP.reqByte (k + 1)) fun _ =>
    hP.bind (hP.reqByte (k + 2)) fun _ => hP.bind (hP.reqByte (k + 3)) fun _ => hP.pure _

/-- The end of `serve_read` and `serve_write`. -/
theorem HandlerRules.advance {i : Nat} (hi : Slot i) (r : Word) : P (do
    if isPos r then Jos.addOffset i r
    return r : SrvM Word) := by
  by_cases hpos : isPos r = true
  · simp only [hpos, if_true]
    exact hP.bind (hP.addOffset hi r) fun _ => hP.pure r
  · simp only [hpos]
    exact hP.bind (hP.pure ()) fun _ => hP.pure r

theorem HandlerRules.fileWriteReqLoop (f : FileP) (stop : Word) (n : Nat) :
    ∀ pos buf, P (fileWriteReqLoop f stop n pos buf) := by
  induction n with
  | zero => exact fun _ _ => hP.pure none
  | succ n ih =>
    intro pos buf
    unfold Jos.fileWriteReqLoop
    generalize chunk stop pos = c
    generalize pos.sdiv 4096#32 = blk
    refine hP.ite (hP.bind (hP.getBlock f blk) fun r => ?_) (hP.pure none)
    cases r with
    | error r => exact hP.pure (some r)
    | ok b =>
      exact hP.bind (hP.reqBytes _ _) fun xs => hP.bind (hP.putDiskBytes _ xs) fun _ => ih _ _

theorem HandlerRules.fileWriteReq (f : FileP) (count offset : Word) :
    P (fileWriteReq f count offset) := by
  have hloop : P (Jos.fileWriteReqLoop f (offset + count) count.toNat offset 8 >>=
      writeEnd count) := by
    refine hP.bind (hP.fileWriteReqLoop _ _ _ _ _) fun r => ?_
    cases r with
    | some r => exact hP.pure r
    | none => exact hP.pure count
  refine hP.bind (hP.load _ _) fun size => ?_
  by_cases hlt : size < offset + count
  · simp only [hlt, if_true]
    exact hP.bind (hP.setSize _ _) fun _ => hloop
  · simp only [hlt, if_false]
    exact hloop

theorem HandlerRules.serveWrite : P serveWrite :=
  hP.lookup (fun r => hP.pure r) fun i hi => hP.bind (hP.reqWord 4) fun n =>
    hP.bind (hP.openFileOf i) fun f => hP.bind (hP.getOffset hi) fun offset =>
      hP.bind (hP.fileWriteReq f n offset) fun r => hP.advance hi r

theorem HandlerRules.serveSetSize : P serveSetSize :=
  hP.lookup (fun r => hP.pure r) fun i _ => hP.bind (hP.reqWord 4) fun size =>
    hP.bind (hP.openFileOf i) fun f => hP.setSize f size

theorem HandlerRules.serveFlush : P serveFlush :=
  hP.lookup (fun r => hP.pure r) fun _ _ => hP.pure _

section

variable (hput : ∀ k x, P (putReqByte k x))

include hput

theorem HandlerRules.putReqBytes (xs : List Byte) : ∀ k, P (putReqBytes k xs) := by
  induction xs with
  | nil => exact fun _ => hP.pure ()
  | cons x xs ih => exact fun k => hP.bind (hput k x) fun _ => ih (k + 1)

theorem HandlerRules.fileReadReqLoop (f : FileP) (stop : Word) (n : Nat) :
    ∀ pos buf, P (fileReadReqLoop f stop n pos buf) := by
  induction n with
  | zero => exact fun _ _ => hP.pure none
  | succ n ih =>
    intro pos buf
    unfold Jos.fileReadReqLoop
    generalize chunk stop pos = c
    generalize pos.sdiv 4096#32 = blk
    refine hP.ite (hP.bind (hP.getBlock f blk) fun r => ?_) (hP.pure none)
    cases r with
    | error r => exact hP.pure (some r)
    | ok b =>
      exact hP.bind (hP.diskBytes _ _) fun xs =>
        hP.bind (hP.putReqBytes hput xs buf) fun _ => ih _ _

theorem HandlerRules.fileReadReq (f : FileP) (count offset : Word) :
    P (fileReadReq f count offset) := by
  refine hP.bind (hP.load _ _) fun size => hP.ite (hP.pure 0#32) ?_
  refine hP.bind (hP.fileReadReqLoop hput _ _ _ _ _) fun r => ?_
  cases r with
  | some r => exact hP.pure r
  | none => exact hP.pure _

theorem HandlerRules.serveRead : P serveRead :=
  hP.lookup (fun r => hP.pure r) fun i hi => hP.bind (hP.reqWord 4) fun n =>
    hP.bind (hP.openFileOf i) fun f => hP.bind (hP.getOffset hi) fun offset =>
      hP.bind (hP.fileReadReq hput f n offset) fun r => hP.advance hi r

theorem HandlerRules.strcpyReq (n : Nat) : ∀ a k, P (strcpyReq a k n) := by
  induction n with
  | zero => exact fun _ _ => hP.overrun
  | succ n ih =>
    intro a k
    exact hP.bind (hP.diskByte a) fun x => hP.bind (hput k x) fun _ =>
      hP.ite (hP.pure ()) (ih _ _)

theorem HandlerRules.serveStat : P serveStat :=
  hP.lookup (fun r => hP.pure r) fun i _ => hP.bind (hP.openFileOf i) fun _ =>
    hP.bind (hP.strcpyReq hput _ _ _) fun _ => hP.bind (hP.load _ _) fun _ =>
      hP.bind (hP.putReqBytes hput _ _) fun _ => hP.bind (hP.load _ _) fun _ =>
        hP.bind (hP.putReqBytes hput _ _) fun _ => hP.pure _

end

end

/-! ## §2. No page fault. -/

section

variable {α β : Type} {p : Word} {t : Nat → Option Nat}

/-- The permissions of the request page are `p`, and the `Fd` pages are where
`t` says. -/
def Steady (p : Word) (t : Nat → Option Nat) (s : Srv) : Prop :=
  s.reqPerm = p ∧ s.tab.fdPage = t

/-- The code takes no page fault outside the disk map. -/
def NoFault (p : Word) (t : Nat → Option Nat) (m : SrvM α) : Prop :=
  ∀ s, Steady p t s → wp m (fun _ s' => Steady p t s') (fun e _ => e ≠ .pageFault) s

theorem noFault_pure (a : α) : NoFault p t (pure a : SrvM α) := fun _ hs => hs

theorem NoFault.bind {m : SrvM α} {k : α → SrvM β} (hm : NoFault p t m)
    (hk : ∀ a, NoFault p t (k a)) : NoFault p t (m >>= k) := by
  intro s hs
  apply wp_seq (hm s hs)
  intro a s' hs'
  exact hk a s' hs'

/-- What a function of `fs/fs.c` panics with is not a fault at `fsreq`. -/
theorem noFault_onDisk (m : FsM α) : NoFault p t (onDisk m) := by
  intro s hs
  unfold wp onDisk
  cases m s.disk with
  | ok a d => exact hs
  | error e d => exact fun he => by cases he

/-- The slot `openfile_lookup` finds has its page: without one `pageref` is 0. -/
theorem openfileLookup_page {tab : OpenTab} {fileid : Word} {i : Nat}
    (h : openfileLookup tab fileid = .ok i) : ∃ q, tab.fdPage i = some q := by
  unfold openfileLookup at h
  dsimp only at h
  split at h
  · cases h
  · rename_i hgood
    cases h
    cases hq : tab.fdPage (fileid.toNat % MAXOPEN) with
    | some q => exact ⟨q, rfl⟩
    | none =>
      refine absurd (Or.inl ?_) hgood
      unfold OpenTab.pageref
      rw [hq]
      exact show (0#16).toNat ≤ 1 by decide

section

variable (hu : p &&& PTE_U ≠ 0#32)

include hu

theorem noFault_reqByte (k : Nat) : NoFault p t (reqByte k) := by
  intro s hs
  refine wp_get_bind ?_
  by_cases hk : k < BLKSIZE
  · rw [if_pos hk, if_neg (by rw [hs.1]; exact hu)]
    exact hs
  · rw [if_neg hk]
    exact noFault_onDisk _ s hs

theorem noFault_reqWord (k : Nat) : NoFault p t (reqWord k) :=
  (noFault_reqByte hu k).bind fun _ => (noFault_reqByte hu (k + 1)).bind fun _ =>
    (noFault_reqByte hu (k + 2)).bind fun _ => (noFault_reqByte hu (k + 3)).bind fun _ =>
      noFault_pure _

/-- `openfile_lookup`, followed by code for the slot it finds; that slot has its
page. -/
theorem noFault_lookup {k : Except Word Nat → SrvM β} (herr : ∀ r, NoFault p t (k (.error r)))
    (hok : ∀ i, (∃ q, t i = some q) → NoFault p t (k (.ok i))) : NoFault p t (lookupReq >>= k) := by
  intro s hs
  have hread : wp lookupReq (fun r s' => Steady p t s' ∧ ∀ i, r = .ok i → ∃ q, t i = some q)
      (fun e _ => e ≠ .pageFault) s := by
    apply wp_seq (noFault_reqWord hu 0 s hs)
    intro fileid s' hs'
    exact ⟨hs', fun i hi => hs'.2 ▸ openfileLookup_page hi⟩
  apply wp_seq hread
  intro r s' hr
  cases r with
  | error r => exact herr r s' hr.1
  | ok i => exact hok i (hr.2 i rfl) s' hr.1

end

theorem noFault_getOffset {i q : Nat} (hq : t i = some q) : NoFault p t (getOffset i) := by
  intro s hs
  refine wp_get_bind ?_
  rw [hs.2, hq]
  exact hs

theorem noFault_addOffset {i q : Nat} (hq : t i = some q) (r : Word) :
    NoFault p t (addOffset i r) := by
  intro s hs
  refine wp_get_bind ?_
  rw [hs.2, hq]
  exact hs

theorem noFault_rules (hu : p &&& PTE_U ≠ 0#32) :
    HandlerRules (fun m => NoFault p t m) (fun i => ∃ q, t i = some q) where
  pure := noFault_pure
  bind := NoFault.bind
  reqByte := noFault_reqByte hu
  lookup := noFault_lookup hu
  openFileOf _ := fun _ hs => hs
  getOffset := fun ⟨_, hq⟩ => noFault_getOffset hq
  addOffset := fun ⟨_, hq⟩ r => noFault_addOffset hq r
  load _ _ := noFault_onDisk _
  diskByte _ := noFault_onDisk _
  diskBytes _ _ := noFault_onDisk _
  putDiskBytes _ _ := noFault_onDisk _
  getBlock _ _ := noFault_onDisk _
  setSize _ _ := noFault_onDisk _
  overrun := fun _ _ he => by cases he

theorem noFault_putReqByte (hu : p &&& PTE_U ≠ 0#32) (hw : p &&& PTE_W ≠ 0#32) (k : Nat)
    (x : Byte) :
    NoFault p t (putReqByte k x) := by
  intro s hs
  refine wp_get_bind ?_
  by_cases hk : k < BLKSIZE
  · have hperm : ¬ (s.reqPerm &&& PTE_U = 0#32 ∨ s.reqPerm &&& PTE_W = 0#32) := by
      rw [hs.1]
      exact not_or.mpr ⟨hu, hw⟩
    rw [if_pos hk, if_neg hperm]
    exact hs
  · rw [if_neg hk]
    exact noFault_onDisk _ s hs

/-- `serve_open` takes no fault; it may give a slot its page. -/
theorem serveOpen_noFault (hu : p &&& PTE_U ≠ 0#32) {s : Srv} (hs : Steady p t s) (mem : Bool) :
    wp (serveOpen mem) (fun _ _ => True) (fun e _ => e ≠ .pageFault) s := by
  apply wp_seq ((noFault_rules hu).reqBytes (MAXPATHLEN - 1) 0 s hs)
  intro bytes s₁ hs₁
  refine wp_get_bind ?_
  rcases openfileAlloc mem s₁.tab with ⟨r, tab⟩
  cases r with
  | error r => exact trivial
  | ok i =>
    have hrest : NoFault p tab.fdPage (if (tab.opentab i).oFileid.slt 0#32 then
        return ((tab.opentab i).oFileid, none)
      else serveOpenFile (bytes.takeWhile (· ≠ 0#8)) i) := by
      refine (noFault_rules hu).ite (noFault_pure _) ?_
      apply (noFault_reqWord hu MAXPATHLEN).bind
      intro omode
      apply (noFault_onDisk _).bind
      intro r
      cases r with
      | error r => exact noFault_pure _
      | ok f => exact NoFault.bind (fun s hs => hs) fun _ => noFault_pure _
    refine wp_bind_ok (show (set { s₁ with tab := tab } : SrvM PUnit) s₁ = .ok ⟨⟩ _ from rfl) ?_
    exact wp_mono (hrest _ ⟨hs₁.1, rfl⟩) (fun _ _ _ => trivial) (fun _ _ h => h)

/-- Without `PTE_U` the first byte faults already. -/
theorem reqByte_faults {s : Srv} (hu : s.reqPerm &&& PTE_U = 0#32) :
    reqByte 0 s = .error .pageFault s := by
  unfold reqByte
  rw [bind_get, if_pos (by decide), if_pos hu]
  rfl

theorem lookupReq_faults {s : Srv} (hu : s.reqPerm &&& PTE_U = 0#32) :
    lookupReq s = .error .pageFault s := by
  unfold lookupReq reqWord
  exact bind_error (bind_error (reqByte_faults hu))

theorem putReqByte_faults {s : Srv} (hw : s.reqPerm &&& PTE_W = 0#32) (x : Byte) :
    putReqByte 0 x s = .error .pageFault s := by
  unfold putReqByte
  rw [bind_get, if_pos (by decide), if_pos (Or.inr hw)]
  rfl

theorem chunk_ne_zero {stop pos : Word} (h : pos < stop) : chunk stop pos ≠ 0#32 := by
  unfold chunk umin
  split
  · intro h0
    have he : pos.srem 4096#32 = 4096#32 :=
      ((BitVec.sub_eq_iff_eq_add.mp h0).trans (BitVec.zero_add _)).symm
    have hi := BitVec.toInt_srem pos 4096#32
    rw [he, show (4096#32 : Word).toInt = 4096 from rfl] at hi
    have := Int.tmod_lt_of_pos pos.toInt (show (0 : Int) < 4096 by decide)
    omega
  · intro h0
    rw [(BitVec.sub_eq_iff_eq_add.mp h0).trans (BitVec.zero_add _)] at h
    exact absurd h (BitVec.lt_irrefl pos)

/-- What `serve_read` starts from: the file, the count asked for and the offset. -/
structure ReadArgs (s : Srv) (i : Nat) (f : FileP) (count offset : Word) : Prop where
  file : (s.tab.opentab i).oFile = f
  count : pageWord s.req 4 = count
  offset : ∃ q, s.tab.fdPage i = some q ∧ (s.tab.fd q).fdOffset = offset

/-- `file_read` has a byte to copy: the offset lies before the end, and the first block is
there or can be had. -/
def Copies (d : Disk) (f : FileP) (count offset : Word) : Prop :=
  (d f.blk f.fSize).sle offset = false ∧
    offset < offset + umin count (d f.blk f.fSize - offset) ∧
    ∃ b d', fileGetBlock f (offset.sdiv 4096#32) d = .ok (.ok b) d'

/-- The handler reads the page. -/
def ReadsPage : Option FsReq → Prop
  | none | some .remove | some .sync => False
  | _ => True

/-- The handler writes the page. -/
def WritesPage (s : Srv) : Option FsReq → Prop
  | some .stat => ∃ i, openfileLookup s.tab (pageWord s.req 0) = .ok i
  | some .read => ∃ i f count offset, openfileLookup s.tab (pageWord s.req 0) = .ok i ∧
      ReadArgs s i f count offset ∧ Copies s.disk f count offset
  | _ => False

theorem fileReadReq_faults {s : Srv} (hw : s.reqPerm &&& PTE_W = 0#32) {f : FileP}
    {count offset : Word} (h : Copies s.disk f count offset) :
    ∃ s', fileReadReq f count offset s = .error .pageFault s' := by
  obtain ⟨hsize, hlt, b, d', hblk⟩ := h
  unfold fileReadReq
  rw [bind_ok (show onDisk (load f.blk f.fSize) s = .ok (s.disk f.blk f.fSize) s from rfl), hsize]
  generalize umin count (s.disk f.blk f.fSize - offset) = n at hlt ⊢
  obtain ⟨m, hm⟩ : ∃ m, n.toNat = m + 1 := by
    refine Nat.exists_eq_succ_of_ne_zero fun h0 => ?_
    rw [show n = 0#32 from BitVec.eq_of_toNat_eq h0, BitVec.add_zero] at hlt
    exact absurd hlt (BitVec.lt_irrefl offset)
  obtain ⟨c, hc⟩ : ∃ c, (chunk (offset + n) offset).toNat = c + 1 :=
    Nat.exists_eq_succ_of_ne_zero fun h0 => chunk_ne_zero hlt (BitVec.eq_of_toNat_eq h0)
  obtain ⟨xs, hxs⟩ := diskBytes_ok c (blkAddr b offset + 1) d'
  obtain ⟨x, hx⟩ : ∃ x, diskByte (blkAddr b offset) d' = .ok x d' := ⟨_, rfl⟩
  have hbytes : onDisk (diskBytes (blkAddr b offset) (c + 1)) { s with disk := d' }
      = .ok (x :: xs) { s with disk := d' } := by
    unfold onDisk diskBytes
    rw [bind_ok hx, bind_ok hxs]
    rfl
  refine ⟨{ s with disk := d' }, bind_error ?_⟩
  rw [hm]
  unfold fileReadReqLoop
  rw [if_pos hlt, bind_ok (onDisk_ok hblk), hc]
  dsimp only
  rw [bind_ok hbytes]
  exact bind_error (bind_error (putReqByte_faults (s := { s with disk := d' }) hw x))

theorem noFault_fileReadReq {s : Srv} (hs : Steady p t s) {f : FileP} {count offset : Word}
    (h : ¬ Copies s.disk f count offset) :
    wp (fileReadReq f count offset) (fun _ s' => Steady p t s') (fun e _ => e ≠ .pageFault) s := by
  unfold fileReadReq
  refine wp_bind_ok (show onDisk (load f.blk f.fSize) s = .ok (s.disk f.blk f.fSize) s from rfl) ?_
  cases hsize : (s.disk f.blk f.fSize).sle offset with
  | true => exact hs
  | false =>
    rw [if_neg (by simp)]
    have hend : ∀ r : Option Word,
        NoFault p t (writeEnd (umin count (s.disk f.blk f.fSize - offset)) r : SrvM Word) := by
      rintro (_ | r)
      · exact noFault_pure _
      · exact noFault_pure _
    refine wp_seq ?_ fun r s' hs' => hend r s' hs'
    cases (umin count (s.disk f.blk f.fSize - offset)).toNat with
    | zero => exact hs
    | succ m =>
      unfold fileReadReqLoop
      split
      · rename_i hlt
        cases hblk : fileGetBlock f (offset.sdiv 4096#32) s.disk with
        | error e d' =>
          unfold wp
          rw [bind_error (onDisk_error hblk)]
          exact fun he => by cases he
        | ok r d' =>
          cases r with
          | error r =>
            exact wp_bind_ok (onDisk_ok hblk) (noFault_pure (some r) { s with disk := d' } hs)
          | ok b => exact absurd ⟨hsize, hlt, b, d', hblk⟩ h
      · exact hs

/-- A page that cannot be read stops every handler that reads it. -/
theorem handle_unreadable {s : Srv} (hu : s.reqPerm &&& PTE_U = 0#32) (mem : Bool)
    {r : Option FsReq} (h : ReadsPage r) : ∃ s', handle mem r s = .error .pageFault s' := by
  refine ⟨s, ?_⟩
  have hlookup := lookupReq_faults hu
  rcases r with _ | _ | _ | _ | _ | _ | _ | _ | _
  case none => exact h.elim
  case some.remove => exact h.elim
  case some.sync => exact h.elim
  case some.open_ => exact bind_error (bind_error (reqByte_faults hu))
  all_goals exact bind_error (bind_error hlookup)

/-- A page that cannot be written stops the handler that writes it. -/
theorem handle_unwritable {s : Srv} (hu : s.reqPerm &&& PTE_U ≠ 0#32)
    (hw : s.reqPerm &&& PTE_W = 0#32) (mem : Bool) {r : Option FsReq} (h : WritesPage s r) :
    ∃ s', handle mem r s = .error .pageFault s' := by
  have hlookup := lookupReq_ok hu
  unfold WritesPage at h
  split at h
  · -- `strcpy` writes at least the NUL
    obtain ⟨i, hi⟩ := h
    rw [hi] at hlookup
    refine ⟨s, bind_error ?_⟩
    unfold serveStat
    rw [bind_ok hlookup]
    obtain ⟨n, hn⟩ : ∃ n, 2 ^ 32 = n + 1 := ⟨2 ^ 32 - 1, rfl⟩
    obtain ⟨x, hx⟩ : ∃ x, onDisk (diskByte (s.tab.opentab i).oFile.fName) s = .ok x s := ⟨_, rfl⟩
    dsimp only
    rw [bind_ok (show openFileOf i s = .ok (s.tab.opentab i).oFile s from rfl), hn]
    refine bind_error ?_
    unfold strcpyReq
    rw [bind_ok hx]
    exact bind_error (putReqByte_faults hw x)
  · obtain ⟨i, f, count, offset, hi, ⟨rfl, rfl, q, hq, rfl⟩, hcopy⟩ := h
    rw [hi] at hlookup
    obtain ⟨s', hread⟩ := fileReadReq_faults hw hcopy
    refine ⟨s', bind_error ?_⟩
    unfold serveRead
    rw [bind_ok hlookup]
    dsimp only
    rw [bind_ok (reqWord_ok hu (by decide)),
      bind_ok (show openFileOf i s = .ok (s.tab.opentab i).oFile s from rfl),
        bind_ok (getOffset_ok hq)]
    exact bind_error hread
  · exact h.elim

/-- With the permissions its handler needs, no request faults. -/
theorem handle_noFault {s : Srv} (mem : Bool) {r : Option FsReq}
    (hu : ReadsPage r → s.reqPerm &&& PTE_U ≠ 0#32)
    (hw : WritesPage s r → s.reqPerm &&& PTE_W ≠ 0#32) :
    wp (handle mem r) (fun _ _ => True) (fun e _ => e ≠ .pageFault) s := by
  have hs : Steady s.reqPerm s.tab.fdPage s := ⟨rfl, rfl⟩
  have hany : ∀ {m : SrvM Word}, wp m (fun _ _ => True) (fun e _ => e ≠ .pageFault) s →
      wp (do return (← m, none) : SrvM (Word × Option Nat)) (fun _ _ => True)
        (fun e _ => e ≠ .pageFault) s := fun hm => wp_seq hm fun _ _ _ => trivial
  have hfin : ∀ {m : SrvM Word}, NoFault s.reqPerm s.tab.fdPage m →
      wp (do return (← m, none) : SrvM (Word × Option Nat)) (fun _ _ => True)
        (fun e _ => e ≠ .pageFault) s := fun hm =>
    hany (wp_mono (hm s hs) (fun _ _ _ => trivial) fun _ _ h => h)
  cases r with
  | none => exact trivial
  | some r =>
    cases r with
    | open_ => exact serveOpen_noFault (hu trivial) hs mem
    | setSize => exact hfin (noFault_rules (hu trivial)).serveSetSize
    | write => exact hfin (noFault_rules (hu trivial)).serveWrite
    | flush => exact hfin (noFault_rules (hu trivial)).serveFlush
    | remove => exact trivial
    | sync => exact hfin (noFault_pure 0#32)
    | read =>
      have hu := hu trivial
      by_cases hw' : s.reqPerm &&& PTE_W ≠ 0#32
      · exact hfin ((noFault_rules hu).serveRead (noFault_putReqByte hu hw'))
      refine hany (wp_bind_ok (lookupReq_ok hu) ?_)
      cases hi : openfileLookup s.tab (pageWord s.req 0) with
      | error r => exact trivial
      | ok i =>
        obtain ⟨q, hq⟩ := openfileLookup_page hi
        refine wp_bind_ok (reqWord_ok hu (by decide)) ?_
        refine wp_bind_ok (show openFileOf i s = .ok (s.tab.opentab i).oFile s from rfl) ?_
        refine wp_bind_ok (getOffset_ok hq)
          (wp_seq (noFault_fileReadReq hs fun hc => ?_) fun r s' hs' => ?_)
        · exact hw' (hw ⟨i, _, _, _, hi, ⟨rfl, rfl, q, hq, rfl⟩, hc⟩)
        · exact wp_mono ((noFault_rules hu).advance ⟨q, hq⟩ r s' hs') (fun _ _ _ => trivial)
            fun _ _ h => h
    | stat =>
      have hu := hu trivial
      by_cases hw' : s.reqPerm &&& PTE_W ≠ 0#32
      · exact hfin ((noFault_rules hu).serveStat (noFault_putReqByte hu hw'))
      refine hany (wp_bind_ok (lookupReq_ok hu) ?_)
      cases hi : openfileLookup s.tab (pageWord s.req 0) with
      | error r => exact trivial
      | ok i => exact absurd (hw ⟨i, hi⟩) hw'

/-- **WHEN A REQUEST STOPS THE SERVER.**  For every state, request number and page that came
with `PTE_P`: the request causes no page fault outside the disk map exactly if the page came
with `PTE_U` where its handler reads it and with `PTE_W` where it writes it. -/
theorem serve_survives_iff (s : Srv) (mem : Bool) (code : Word)
    (hp : s.reqPerm &&& PTE_P ≠ 0#32) :
    (∀ s', serve mem code s ≠ .error .pageFault s') ↔
      (ReadsPage (fsReq code) → s.reqPerm &&& PTE_U ≠ 0#32) ∧
      (WritesPage s (fsReq code) → s.reqPerm &&& PTE_W ≠ 0#32) := by
  have hserve : serve mem code s = (do return some (← handle mem (fsReq code)) : SrvM _) s := by
    unfold serve
    rw [bind_get, if_neg hp]
  rw [hserve]
  constructor
  · intro hsafe
    have hno : ¬ ∃ s', handle mem (fsReq code) s = .error .pageFault s' :=
      fun ⟨s', h⟩ => hsafe s' (bind_error h)
    have hread : ReadsPage (fsReq code) → s.reqPerm &&& PTE_U ≠ 0#32 :=
      fun h hu => hno (handle_unreadable hu mem h)
    refine ⟨hread, fun h hw => hno (handle_unwritable (hread ?_) hw mem h)⟩
    unfold WritesPage at h
    split at h
    · rename_i hreq
      rw [hreq]
      exact trivial
    · rename_i hreq
      rw [hreq]
      exact trivial
    · exact h.elim
  · rintro ⟨hu, hw⟩ s' herr
    have hwp : wp (do return some (← handle mem (fsReq code)) : SrvM _) (fun _ _ => True)
        (fun e _ => e ≠ .pageFault) s := wp_seq (handle_noFault mem hu hw) fun _ _ _ => trivial
    exact wp_error hwp herr rfl

end

/-! ## §3. Two requests on the small disk. -/

/-- A server with one open file, slot 0 and id 1024, and a page that came with
the permissions `perm` and names that file. -/
def oneOpen (perm : Word) : Srv where
  disk := smallDisk
  tab := firstOpen.t
  req k := if k = 1 then 4#8 else 0#8
  reqPerm := perm

/-- A `FSREQ_STAT` whose page can be written, and one that cannot be read. -/
theorem serve_survives_stat :
    (∀ s', serve true 5#32 (oneOpen (PTE_P ||| PTE_U ||| PTE_W)) ≠ .error .pageFault s') ∧
      ¬ ∀ s', serve true 5#32 (oneOpen PTE_P) ≠ .error .pageFault s' :=
  ⟨(serve_survives_iff _ true 5#32 (by decide)).mpr ⟨fun _ => by decide, fun _ => by decide⟩,
    fun h => ((serve_survives_iff _ true 5#32 (by decide)).mp h).1 trivial (by decide)⟩

/-- **A `FSREQ_STAT` whose page came without `PTE_W` stops the server.** -/
theorem serve_stat_faults : (oneOpen (PTE_P ||| PTE_U)).reqPerm &&& PTE_P ≠ 0#32 ∧
    ∃ s', serve true 5#32 (oneOpen (PTE_P ||| PTE_U)) = .error .pageFault s' :=
  ⟨by decide, _, rfl⟩

end Jos

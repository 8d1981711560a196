/-
  Jos.Fs.DirSize — **THE SIZE OF DIRECTORIES, OVER ALL REQUESTS** (`fs/serv.c`).

  `dir_lookup` relies on the size of a directory being a multiple of the block
  size.  The server keeps it so as long as clients resize, write and truncate
  regular files only; but a directory can be opened like any file, and nothing
  in the handlers looks at the type of the file.
-/
import Jos.Fs.DirWalk
import Jos.Fs.ReadSeq
import Jos.Fs.ReqPage
import Jos.Fs.Leak

namespace Jos

open Exec
open Function (update update_of_ne update_self)

/-! ## §1. The table of open files. -/

variable {s : Srv} {t : OpenTab} {d d' : Disk} {f : FileP}

/-- Every slot whose page a client has mapped is open on a file. -/
structure TabOk (t : OpenTab) (d : Disk) : Prop where
  page_lt : ∀ i p, t.fdPage i = some p → p < t.next
  page_inj : ∀ i j p, t.fdPage i = some p → t.fdPage j = some p → i = j
  fresh : ∀ p, t.next ≤ p → t.maps p = 0
  file : ∀ i p, t.fdPage i = some p → t.maps p ≠ 0 → (t.opentab i).oFile ∈ allFiles d

section
variable (h : TabOk t d)
include h

theorem TabOk.later (hl : Later d d') : TabOk t d' :=
  ⟨h.page_lt, h.page_inj, h.fresh, fun i p hp hm => hl.files (h.file i p hp hm)⟩

/-- The `Fd` pages do not matter. -/
theorem TabOk.setFd (fd : Nat → FdPage) : TabOk { t with fd := fd } d :=
  ⟨h.page_lt, h.page_inj, h.fresh, h.file⟩

theorem TabOk.newPage (i : Nat) : TabOk (t.newPage i) d := by
  have hcase : ∀ j p, (t.newPage i).fdPage j = some p →
      (j = i ∧ p = t.next) ∨ (j ≠ i ∧ t.fdPage j = some p) := by
    intro j p hp
    change update t.fdPage i (some t.next) j = some p at hp
    by_cases hj : j = i
    · subst hj
      rw [update_self] at hp
      cases hp
      exact Or.inl ⟨rfl, rfl⟩
    · rw [update_of_ne hj] at hp
      exact Or.inr ⟨hj, hp⟩
  refine ⟨?_, ?_, fun p hp => h.fresh p (Nat.le_of_succ_le hp), ?_⟩
  · intro j p hp
    show p < t.next + 1
    rcases hcase j p hp with ⟨-, rfl⟩ | ⟨-, hp'⟩
    · omega
    · have := h.page_lt j p hp'
      omega
  · intro j k p hj hk
    rcases hcase j p hj with ⟨rfl, rfl⟩ | ⟨-, hj'⟩ <;> rcases hcase k _ hk with ⟨rfl, hp⟩ | ⟨-, hk'⟩
    · rfl
    · exact absurd (h.page_lt k _ hk') (Nat.lt_irrefl _)
    · rw [hp] at hj'
      exact absurd (h.page_lt j _ hj') (Nat.lt_irrefl _)
    · exact h.page_inj j k p hj' hk'
  · intro j p hp hm
    rcases hcase j p hp with ⟨-, rfl⟩ | ⟨-, hp'⟩
    · exact absurd (h.fresh _ le_rfl) hm
    · exact h.file j p hp' hm

theorem TabOk.bump (i : Nat) : TabOk (t.bump i) d := by
  refine ⟨h.page_lt, h.page_inj, h.fresh, fun j p hp hm => ?_⟩
  show (update t.opentab i _ j).oFile ∈ _
  by_cases hj : j = i
  · subst hj
    rw [update_self]
    exact h.file j p hp hm
  · rw [update_of_ne hj]
    exact h.file j p hp hm

theorem TabOk.fill (i : Nat) (hf : f ∈ allFiles d) (omode : Word) :
    TabOk (t.fill i f omode) d ∧ ((t.fill i f omode).opentab i).oFile = f := by
  refine ⟨⟨h.page_lt, h.page_inj, h.fresh, fun j p hp hm => ?_⟩, ?_⟩
  · show (update t.opentab i _ j).oFile ∈ _
    by_cases hj : j = i
    · subst hj
      rw [update_self]
      exact hf
    · rw [update_of_ne hj]
      exact h.file j p hp hm
  · show (update t.opentab i _ i).oFile = f
    rw [update_self]

theorem TabOk.alloc (mem : Bool) : TabOk (openfileAlloc mem t).2 d := by
  have hfrom : ∀ n i, TabOk (openfileAllocFrom mem t n i).2 d := by
    intro n
    induction n with
    | zero => exact fun _ => h
    | succ n ih =>
      intro i
      unfold openfileAllocFrom
      split
      · split
        · exact (h.newPage i).bump i
        · exact h
      · split
        · exact h.bump i
        · exact ih (i + 1)
  exact hfrom _ _

/-- A client takes the page of slot `i`. -/
theorem TabOk.map {i p : Nat} (hp : t.fdPage i = some p)
    (hf : (t.opentab i).oFile ∈ allFiles d) (n : Nat) : TabOk (t.setMaps p n) d := by
  refine ⟨h.page_lt, h.page_inj, ?_, ?_⟩
  · intro q hq
    show update t.maps p n q = 0
    have hlt := h.page_lt i p hp
    replace hq : t.next ≤ q := hq
    rw [update_of_ne (by omega)]
    exact h.fresh q hq
  · intro j q hq hm
    by_cases hqp : q = p
    · subst hqp
      rw [h.page_inj j i q hq hp]
      exact hf
    · change update t.maps p n q ≠ 0 at hm
      rw [update_of_ne hqp] at hm
      exact h.file j q hq hm

/-- What `openfile_lookup` finds is a file. -/
theorem TabOk.lookup {id : Word} {i : Nat} (hl : openfileLookup t id = .ok i) :
    ∃ p, t.fdPage i = some p ∧ (t.opentab i).oFile ∈ allFiles d := by
  unfold openfileLookup at hl
  dsimp only at hl
  split at hl
  · cases hl
  · rename_i hgood
    cases hl
    rw [not_or] at hgood
    have href := hgood.1
    unfold OpenTab.pageref at href
    cases hp : t.fdPage (id.toNat % MAXOPEN) with
    | none =>
      rw [hp] at href
      exact absurd (show (0#16).toNat ≤ 1 by decide) href
    | some p =>
      refine ⟨p, rfl, h.file _ p hp fun h0 => ?_⟩
      rw [hp] at href
      apply href
      show t.ppRef p ≤ 1#16
      unfold OpenTab.ppRef
      rw [h0]
      decide

end

/-- The server between two requests. -/
structure SrvOk (s : Srv) : Prop where
  dirs : DirOk s.disk
  tab : TabOk s.tab s.disk

/-! ## §2. Reading the request. -/

theorem reqByte_cases (k : Nat) (s : Srv) :
    (∃ x, reqByte k s = .ok x s) ∨ reqByte k s = .error .pageFault s := by
  unfold reqByte
  rw [bind_get]
  by_cases hk : k < BLKSIZE
  · rw [if_pos hk]
    by_cases hu : s.reqPerm &&& PTE_U = 0#32
    · rw [if_pos hu]
      exact Or.inr rfl
    · rw [if_neg hu]
      exact Or.inl ⟨_, rfl⟩
  · rw [if_neg hk]
    exact Or.inl ⟨_, rfl⟩

theorem reqBytes_cases (n : Nat) :
    ∀ (k : Nat) (s : Srv), (∃ xs, reqBytes k n s = .ok xs s ∧ xs.length = n) ∨
      reqBytes k n s = .error .pageFault s := by
  induction n with
  | zero => exact fun k s => Or.inl ⟨[], rfl, rfl⟩
  | succ n ih =>
    intro k s
    unfold reqBytes
    rcases reqByte_cases k s with ⟨x, hx⟩ | hx
    · rw [bind_ok hx]
      rcases ih (k + 1) s with ⟨xs, hxs, hlen⟩ | hxs
      · rw [bind_ok hxs]
        exact Or.inl ⟨_, rfl, by rw [List.length_cons, hlen]⟩
      · rw [bind_error hxs]
        exact Or.inr rfl
    · rw [bind_error hx]
      exact Or.inr rfl

theorem reqBytes_ok (hu : s.reqPerm &&& PTE_U ≠ 0#32) (n : Nat) :
    ∀ k, k + n ≤ BLKSIZE → reqBytes k n s = .ok ((List.range' k n).map s.req) s := by
  induction n with
  | zero => exact fun _ _ => rfl
  | succ n ih =>
    intro k hk
    unfold reqBytes
    rw [bind_ok (reqByte_ok hu (by omega)), bind_ok (ih (k + 1) (by omega)), List.range'_succ]
    rfl

section

variable {α : Type} {Q : α → Srv → Prop}

/-- Code that starts with a lookup; without `PTE_U` the server stops. -/
theorem wp_lookup {k : Except Word Nat → SrvM α} (h : s.reqPerm &&& PTE_U ≠ 0#32 →
      wp (k (openfileLookup s.tab (pageWord s.req 0))) Q (fun _ _ => True) s) :
    wp (lookupReq >>= k) Q (fun _ _ => True) s := by
  by_cases hu : s.reqPerm &&& PTE_U = 0#32
  · have hbyte : reqByte 0 s = .error .pageFault s := by
      unfold reqByte
      rw [bind_get, if_pos (by decide), if_pos hu]
      rfl
    have hlook : lookupReq s = .error .pageFault s := by
      unfold lookupReq reqWord
      rw [bind_error (bind_error hbyte)]
    exact (wp_bind _ _ _ _ _).mpr (wp_of_error hlook trivial)
  · exact wp_bind_ok (lookupReq_ok hu) (h hu)

end

/-! ## §3. Which requests are allowed. -/

/-- The path of an open request. -/
def Srv.pathArg (s : Srv) : List Byte :=
  ((List.range' 0 (MAXPATHLEN - 1)).map s.req).takeWhile (· ≠ 0#8)

/-- Its mode. -/
def Srv.omodeArg (s : Srv) : Word := pageWord s.req MAXPATHLEN

/-- The request in the page of `s` may be handled: it resizes, writes and
truncates regular files only, within the largest file size; a read fits the
page and starts in the file or behind it; a file is opened when the free blocks
hold zeros and no directory is as large as it can be; and the name of a file
whose state is asked for has its terminating NUL. -/
def Allowed (s : Srv) : Option FsReq → Prop
  | some .open_ => FreeZero s.disk ∧ DirRoom s.disk ∧
      (s.omodeArg &&& O_TRUNC ≠ 0#32 → ∀ r f d,
        openOrCreate s.pathArg s.omodeArg s.disk = .ok (r, some f) d → fileType d f ≠ FTYPE_DIR)
  | some .setSize => ∀ i, openfileLookup s.tab (pageWord s.req 0) = .ok i →
      fileType s.disk (s.tab.opentab i).oFile ≠ FTYPE_DIR ∧
        (pageWord s.req 4).toNat ≤ MAXFILESIZE
  | some .read => s.reqPerm &&& PTE_W ≠ 0#32 ∧
      ∀ i p, openfileLookup s.tab (pageWord s.req 0) = .ok i → s.tab.fdPage i = some p →
        0 ≤ (s.tab.fd p).fdOffset.toInt ∧
          min (pageWord s.req 4).toNat
            (fileSize s.disk (s.tab.opentab i).oFile - (s.tab.fd p).fdOffset.toNat) ≤ BLKSIZE
  | some .write => ∀ i p, openfileLookup s.tab (pageWord s.req 0) = .ok i →
      s.tab.fdPage i = some p → fileType s.disk (s.tab.opentab i).oFile ≠ FTYPE_DIR ∧
        (s.tab.fd p).fdOffset.toNat + (pageWord s.req 4).toNat ≤ MAXFILESIZE
  | some .stat => s.reqPerm &&& PTE_W ≠ 0#32 ∧
      ∀ i, openfileLookup s.tab (pageWord s.req 0) = .ok i →
        ∃ k < MAXNAMELEN, byteAt s.disk ((s.tab.opentab i).oFile.fName + k) = 0#8
  | _ => True

/-! ## §4. Opening. -/

theorem openOrCreate_spec (h : DirOk d) (hz : FreeZero d) (hroom : DirRoom d) (path : List Byte)
    (omode : Word) :
    wp (openOrCreate path omode)
      (fun r t => DirOk t ∧ Later d t ∧ ∀ x, r.2 = some x → x ∈ allFiles t)
      (fun e _ => e ≠ dirAssert) d := by
  have hopen : ∀ u, DirOk u → Later d u → wp (fileOpen path)
      (fun r t => DirOk t ∧ Later d t ∧ ∀ x, r.2 = some x → x ∈ allFiles t)
      (fun e _ => e ≠ dirAssert) u := by
    intro u hu hl
    obtain ⟨w, hwalk, hgood⟩ := walkPath_ok hu path
    exact wp_bind_ok hwalk ⟨hu, hl, hgood.found⟩
  unfold openOrCreate
  by_cases hc : omode &&& O_CREAT ≠ 0#32
  · rw [if_pos hc]
    refine wp_seq (fileCreate_spec h hz hroom path) ?_
    rintro ⟨r, x⟩ u ⟨hu, hl, hin⟩
    dsimp only
    split
    · split
      · exact hopen u hu hl
      · exact ⟨hu, hl, fun x hx => by cases hx⟩
    · exact ⟨hu, hl, hin⟩
  · rw [if_neg hc]
    exact hopen d h (Later.refl d)

/-- The end of `openPath`. -/
def openEnd : Word × Option FileP → FsM (Except Word FileP)
  | (_, some f) => return .ok f
  | (r, none) => return .error r

/-- **The part of `serve_open` that works on the disk.** -/
theorem openPath_spec (h : DirOk d) (hz : FreeZero d) (hroom : DirRoom d) {path : List Byte}
    {omode : Word} (htrunc : omode &&& O_TRUNC ≠ 0#32 → ∀ r f u,
      openOrCreate path omode d = .ok (r, some f) u → fileType u f ≠ FTYPE_DIR) :
    wp (openPath path omode)
      (fun r t => DirOk t ∧ Later d t ∧ ∀ x, r = .ok x → x ∈ allFiles t)
      (fun e _ => e ≠ dirAssert) d := by
  have hagain : ∀ u, DirOk u → Later d u → wp (fileOpen path >>= openEnd)
      (fun r t => DirOk t ∧ Later d t ∧ ∀ x, r = .ok x → x ∈ allFiles t)
      (fun e _ => e ≠ dirAssert) u := by
    intro u hu hl
    obtain ⟨w, hwalk, hgood⟩ := walkPath_ok hu path
    have hopen : fileOpen path u = .ok (w.ret, w.pf) u := by
      unfold fileOpen
      rw [bind_ok hwalk]
      rfl
    refine wp_bind_ok hopen ?_
    cases hpf : w.pf with
    | none => exact ⟨hu, hl, fun x hx => by cases hx⟩
    | some y =>
      refine ⟨hu, hl, fun x hx => ?_⟩
      cases hx
      exact hgood.found y hpf
  have hspec := openOrCreate_spec h hz hroom path omode
  cases hrun : openOrCreate path omode d with
  | error e u =>
    have he := wp_error hspec hrun
    exact (wp_bind _ _ _ _ _).mpr (wp_of_error hrun he)
  | ok a u =>
    obtain ⟨r, x⟩ := a
    obtain ⟨hu, hl, hin⟩ := wp_ok hspec hrun
    refine wp_bind_ok hrun ?_
    cases x with
    | none => exact ⟨hu, hl, fun x hx => by cases hx⟩
    | some x =>
      have hx := hin x rfl
      dsimp only
      by_cases ht : omode &&& O_TRUNC ≠ 0#32
      · rw [if_pos ht]
        have hreg := htrunc ht r x u hrun
        -- a regular file loses its blocks
        refine wp_seq (wp_mono (fileSetSize_spec hu.inv hx hreg
          (show (0#32 : Word).toNat ≤ MAXFILESIZE by decide)) (fun _ _ h => h)
          (fun _ _ h => h.elim)) ?_
        rintro _ v ⟨hv, hrs, -, -⟩
        obtain ⟨hok, hl', -⟩ := hu.of_resized hx hreg hv hrs
        exact hagain v hok (hl.trans hl')
      · rw [if_neg ht]
        exact hagain u hu hl

/-- After a request: what the server needs for the next one, and the file of
the slot whose page is in the reply. -/
def ReplyOk (r : Word × Option Nat) (s' : Srv) : Prop :=
  SrvOk s' ∧ ∀ i, r.2 = some i → (s'.tab.opentab i).oFile ∈ allFiles s'.disk

theorem serveOpen_spec (h : SrvOk s) (ha : Allowed s (some .open_)) (mem : Bool) :
    wp (serveOpen mem) ReplyOk (fun e _ => e ≠ .panic dirAssert) s := by
  obtain ⟨hz, hroom, htrunc⟩ := ha
  by_cases hu : s.reqPerm &&& PTE_U = 0#32
  · -- the page cannot be read
    have hbyte : reqByte 0 s = .error .pageFault s := by
      unfold reqByte
      rw [bind_get, if_pos (by decide), if_pos hu]
      rfl
    have hbytes : reqBytes 0 (MAXPATHLEN - 1) s = .error .pageFault s := bind_error hbyte
    exact (wp_bind _ _ _ _ _).mpr (wp_of_error hbytes (by intro he; cases he))
  refine wp_bind_ok (reqBytes_ok hu (MAXPATHLEN - 1) 0 (by decide)) ?_
  refine wp_get_bind ?_
  have htab := h.tab.alloc mem
  generalize openfileAlloc mem s.tab = a at htab ⊢
  obtain ⟨r, tab⟩ := a
  cases r with
  | error r => exact ⟨⟨h.dirs, htab⟩, fun i hi => by cases hi⟩
  | ok i =>
    refine wp_bind_ok (show (set { s with tab := tab } : SrvM PUnit) s = .ok ⟨⟩ _ from rfl) ?_
    split
    · exact ⟨⟨h.dirs, htab⟩, fun j hj => by cases hj⟩
    · have hmode : reqWord MAXPATHLEN { s with tab := tab } =
          .ok s.omodeArg { s with tab := tab } :=
        reqWord_ok (s := { s with tab := tab }) (k := MAXPATHLEN) hu (by decide)
      refine wp_bind_ok hmode ?_
      have hopen := openPath_spec h.dirs hz hroom htrunc
      unfold wp at hopen
      cases hrun : openPath s.pathArg s.omodeArg s.disk with
      | error e u =>
        rw [hrun] at hopen
        have herr : onDisk (openPath s.pathArg s.omodeArg) { s with tab := tab } =
            .error (.panic e) { s with tab := tab, disk := u } := by
          unfold onDisk
          rw [hrun]
        refine (wp_bind _ _ _ _ _).mpr (wp_of_error herr ?_)
        intro he
        cases he
        exact hopen rfl
      | ok a u =>
        rw [hrun] at hopen
        obtain ⟨hdirs, hl, hin⟩ := hopen
        refine wp_bind_ok (onDisk_ok (s := { s with tab := tab }) hrun) ?_
        cases a with
        | error r => exact ⟨⟨hdirs, htab.later hl⟩, fun j hj => by cases hj⟩
        | ok x =>
          obtain ⟨hfill, hfile⟩ := (htab.later hl).fill i (hin x rfl) s.omodeArg
          refine ⟨⟨hdirs, hfill⟩, fun j hj => ?_⟩
          cases hj
          rw [hfile]
          exact hin x rfl

/-! ## §5. Changing and reading files. -/

theorem replyOk_of_disk (h : SrvOk s) (hd : DirOk d) (hl : Later s.disk d) (r : Word)
    {s' : Srv} (hdisk : s'.disk = d) (htab : ∃ fd, s'.tab = { s.tab with fd := fd }) :
    ReplyOk (r, none) s' := by
  obtain ⟨fd, htab⟩ := htab
  refine ⟨⟨by rw [hdisk]; exact hd, ?_⟩, fun i hi => by cases hi⟩
  rw [hdisk, htab]
  exact (h.tab.later hl).setFd fd

theorem wp_advance {i p : Nat} (hp : s.tab.fdPage i = some p) (r : Word) {Q : Word → Srv → Prop}
    (hQ : ∀ fd, Q r { s with tab := { s.tab with fd := fd } }) :
    wp (do
      if isPos r then addOffset i r
      return r : SrvM Word) Q (fun _ _ => True) s := by
  obtain ⟨fd, hfd⟩ : ∃ fd, s.tab.moved p r = { s.tab with fd := fd } := by
    unfold OpenTab.moved
    split
    · exact ⟨_, rfl⟩
    · exact ⟨s.tab.fd, rfl⟩
  unfold wp
  rw [moved_ok hp r, hfd]
  exact hQ fd

theorem serveSetSize_spec (h : SrvOk s) (ha : Allowed s (some .setSize)) :
    wp serveSetSize (fun r s' => ReplyOk (r, none) s') (fun _ _ => True) s := by
  refine wp_lookup fun hu => ?_
  cases hl : openfileLookup s.tab (pageWord s.req 0) with
  | error r => exact replyOk_of_disk h h.dirs (Later.refl _) r rfl ⟨s.tab.fd, rfl⟩
  | ok i =>
    obtain ⟨p, hp, hf⟩ := h.tab.lookup hl
    obtain ⟨hreg, hsize⟩ := ha i hl
    refine wp_bind_ok (reqWord_ok hu (by decide)) ?_
    refine wp_bind_ok (show openFileOf i s = .ok (s.tab.opentab i).oFile s from rfl) ?_
    have hset := wp_onDisk (s := s) (X := fun _ => True) (wp_mono
      (fileSetSize_spec h.dirs.inv hf hreg hsize) (fun _ _ h => h) (fun _ _ _ => trivial))
    refine wp_mono hset ?_ (fun _ _ _ => trivial)
    rintro r s' ⟨u, rfl, hu', hrs, -, -⟩
    obtain ⟨hok, hlater, -⟩ := h.dirs.of_resized hf hreg hu' hrs
    exact replyOk_of_disk h hok hlater r rfl ⟨s.tab.fd, rfl⟩

section

variable {files : Set FileP} {stop : Word}

/-- The loop of `file_write`, for a regular file and bytes inside its size. -/
theorem fileWriteReqLoop_spec (hf : f ∈ files) (n : Nat) :
    ∀ (pos : Word) (buf : Nat) (s : Srv), FsInv files ∅ s.disk →
      fileType s.disk f ≠ FTYPE_DIR → stop.toNat ≤ fileSize s.disk f →
      wp (fileWriteReqLoop f stop n pos buf)
        (fun r s' => r = none ∧ ∃ u, s' = { s with disk := u } ∧ FsInv files ∅ u ∧
          Grows files f s.disk u)
        (fun _ _ => True) s := by
  induction n with
  | zero => exact fun pos buf s h _ _ => ⟨rfl, s.disk, rfl, h, Grows.refl files f s.disk⟩
  | succ n ih =>
    intro pos buf s h hreg hstop
    unfold fileWriteReqLoop
    by_cases hlt : pos < stop
    · rw [if_pos hlt]
      obtain ⟨hpos, hblk⟩ := block_in_file h hf hstop hlt
      have hc := chunk_le stop hpos
      generalize pos.sdiv 4096#32 = filebno at hblk ⊢
      generalize chunk stop pos = c at hc ⊢
      refine wp_seq (wp_onDisk (X := fun _ => True) (wp_mono (fileGetBlock_spec h hf hblk)
        (fun _ _ h => h) (fun _ _ _ => trivial))) ?_
      rintro r _ ⟨d₁, rfl, b, rfl, hgot⟩
      have h₁ := hgot.inv
      have hg := hgot.grows
      have hmax := h.block_lt hf hblk
      rcases reqBytes_cases c.toNat buf { s with disk := d₁ } with ⟨xs, hxs, hlen⟩ | hxs
      · refine wp_bind_ok hxs ?_
        -- the bytes go into the block that was found
        have hput := putDiskBytes_spec (b := b) xs (blkAddr b pos) d₁ (by
          intro k hk
          rw [blkAddr_eq b hpos]
          unfold BLKSIZE
          omega)
        refine wp_seq (wp_onDisk (s := { s with disk := d₁ }) (X := fun _ => True)
          (wp_mono hput (fun _ _ h => h) (fun _ _ _ => trivial))) ?_
        rintro _ _ ⟨d₂, rfl, hd₂⟩
        have hm := h₁.sameMeta_data hf (by rw [hg.fileType_eq hf]; exact hreg) hmax hgot.set
          (by rw [hgot.block]; exact hd₂)
        have hg₂ := hg.trans (hm.grows f)
        refine wp_mono (ih _ _ { s with disk := d₂ } (h₁.of_sameMeta hm)
          (by rw [hg₂.fileType_eq hf]; exact hreg)
          (by rw [hg₂.fileSize_eq hf]; exact hstop)) ?_ (fun _ _ h => h)
        rintro r _ ⟨hr, u, rfl, hu, hg'⟩
        exact ⟨hr, u, rfl, hu, hg₂.trans hg'⟩
      · exact (wp_bind _ _ _ _ _).mpr (wp_of_error hxs trivial)
    · rw [if_neg hlt]
      exact ⟨rfl, s.disk, rfl, h, Grows.refl files f s.disk⟩

/-- **`file_write`** of a regular file inside the largest file size. -/
theorem fileWriteReq_spec (h : FsInv files ∅ s.disk) (hf : f ∈ files)
    (hreg : fileType s.disk f ≠ FTYPE_DIR) {count offset : Word}
    (hmax : offset.toNat + count.toNat ≤ MAXFILESIZE) :
    wp (fileWriteReq f count offset)
      (fun _ s' => ∃ u, s' = { s with disk := u } ∧ FsInv files ∅ u ∧ Resized files f s.disk u)
      (fun _ _ => True) s := by
  have hsum : (offset + count).toNat = offset.toNat + count.toNat := by
    unfold MAXFILESIZE NDIRECT NINDIRECT BLKSIZE at hmax
    rw [BitVec.toNat_add]
    omega
  have hloop : ∀ d₁, FsInv files ∅ d₁ → Resized files f s.disk d₁ →
      (offset + count).toNat ≤ fileSize d₁ f → wp
        (fileWriteReqLoop f (offset + count) count.toNat offset 8 >>= writeEnd count)
      (fun _ s' => ∃ u, s' = { s with disk := u } ∧ FsInv files ∅ u ∧ Resized files f s.disk u)
      (fun _ _ => True) { s with disk := d₁ } := by
    intro d₁ h₁ hrs hle
    refine wp_seq (fileWriteReqLoop_spec hf count.toNat offset 8 { s with disk := d₁ } h₁
      (by rw [hrs.type f hf]; exact hreg) hle) ?_
    rintro r _ ⟨rfl, u, rfl, hu, hg⟩
    exact ⟨u, rfl, hu, hrs.trans (Resized.of_grows hg)⟩
  refine wp_bind_ok (onDisk_ok (load_ok _ _ s.disk)) ?_
  by_cases hlt : s.disk f.blk f.fSize < offset + count
  · rw [if_pos hlt]
    refine wp_seq (wp_onDisk (X := fun _ => True) (wp_mono
      (fileSetSize_spec h hf hreg (by rw [hsum]; exact hmax)) (fun _ _ h => h)
      (fun _ _ _ => trivial))) ?_
    rintro _ _ ⟨d₁, rfl, h₁, hrs, hsz, -⟩
    exact hloop d₁ h₁ hrs (le_of_eq hsz.symm)
  · rw [if_neg hlt]
    exact hloop s.disk h (Resized.of_grows (Grows.refl files f s.disk)) (Nat.not_lt.mp hlt)

end

theorem serveWrite_spec (h : SrvOk s) (ha : Allowed s (some .write)) :
    wp serveWrite (fun r s' => ReplyOk (r, none) s') (fun _ _ => True) s := by
  refine wp_lookup fun hu => ?_
  cases hl : openfileLookup s.tab (pageWord s.req 0) with
  | error r => exact replyOk_of_disk h h.dirs (Later.refl _) r rfl ⟨s.tab.fd, rfl⟩
  | ok i =>
    obtain ⟨p, hp, hf⟩ := h.tab.lookup hl
    obtain ⟨hreg, hmax⟩ := ha i p hl hp
    refine wp_bind_ok (reqWord_ok hu (by decide)) ?_
    refine wp_bind_ok (show openFileOf i s = .ok (s.tab.opentab i).oFile s from rfl) ?_
    refine wp_bind_ok (getOffset_ok hp) ?_
    refine wp_seq (fileWriteReq_spec h.dirs.inv hf hreg hmax) ?_
    rintro r _ ⟨u, rfl, hu', hrs⟩
    obtain ⟨hok, hlater, -⟩ := h.dirs.of_resized hf hreg hu' hrs
    exact wp_advance (s := { s with disk := u }) hp r
      fun fd => replyOk_of_disk h hok hlater r rfl ⟨fd, rfl⟩

theorem serveRead_keeps (h : SrvOk s) (ha : Allowed s (some .read)) :
    wp serveRead (fun r s' => ReplyOk (r, none) s') (fun _ _ => True) s := by
  by_cases hgood : ∃ i, openfileLookup s.tab (pageWord s.req 0) = .ok i ∧
      s.reqPerm &&& PTE_U ≠ 0#32
  · obtain ⟨i, hl, hu⟩ := hgood
    obtain ⟨p, hp, hf⟩ := h.tab.lookup hl
    obtain ⟨hw, ha⟩ := ha
    obtain ⟨hoff, hfit⟩ := ha i p hl hp
    have hoff' := (toNat_of_nonneg hoff).1
    refine wp_mono (serveRead_spec hf h.dirs.inv (Consistent.recordApart h.dirs.inv hf) ⟨hu, hw⟩
      ⟨hp, rfl⟩ hl hoff' hfit) ?_ (fun _ _ _ => trivial)
    intro r s' hr
    obtain ⟨hheld, htab, -, -, -, -⟩ := hr.next hf h.dirs.inv hoff'
    obtain ⟨hok, hlater⟩ := h.dirs.of_grows hheld.inv hheld.grows
    exact replyOk_of_disk h hok hlater r rfl ⟨_, htab⟩
  · refine wp_lookup fun hu => ?_
    cases hl : openfileLookup s.tab (pageWord s.req 0) with
    | error r => exact replyOk_of_disk h h.dirs (Later.refl _) r rfl ⟨s.tab.fd, rfl⟩
    | ok i => exact absurd ⟨i, hl, hu⟩ hgood

/-- `strcpy` of a name with its NUL stays in the page. -/
theorem strcpyReq_spec (m : Nat) :
    ∀ (a k n : Nat) (s : Srv), Writable s → m ≤ n → k + m ≤ BLKSIZE →
      (∃ j < m, byteAt s.disk (a + j) = 0#8) →
      wp (strcpyReq a k n) (fun _ s' => ∃ req, s' = { s with req := req }) (fun _ _ => True) s := by
  induction m with
  | zero => exact fun a k n s _ _ _ hj => absurd hj (by simp)
  | succ m ih =>
    intro a k n s hw hn hk hj
    obtain ⟨n, rfl⟩ : ∃ n', n = n' + 1 := ⟨n - 1, by omega⟩
    refine wp_bind_ok (onDisk_ok (show diskByte a s.disk = .ok (byteAt s.disk a) s.disk from rfl))
      ?_
    have hput := putReqBytes_ok [byteAt s.disk a] k s hw (by
      rw [List.length_singleton]
      omega)
    have hput' : putReqByte k (byteAt s.disk a) s =
        .ok () { s with req := stored s.req k [byteAt s.disk a] } := by
      obtain ⟨_, s₁, h1, h2⟩ := bind_inv hput
      cases h2
      exact h1
    refine wp_bind_ok hput' ?_
    by_cases h0 : byteAt s.disk a = 0#8
    · rw [if_pos h0]
      exact ⟨_, rfl⟩
    · rw [if_neg h0]
      obtain ⟨j, hj, hz⟩ := hj
      have hj0 : j ≠ 0 := by
        rintro rfl
        exact h0 hz
      refine wp_mono (ih (a + 1) (k + 1) n { s with req := stored s.req k [byteAt s.disk a] } hw
        (by omega) (by omega) ⟨j - 1, by omega, ?_⟩) ?_ (fun _ _ h => h)
      · rw [show a + 1 + (j - 1) = a + j by omega]
        exact hz
      · rintro _ _ ⟨req, rfl⟩
        exact ⟨req, rfl⟩

theorem serveStat_spec (h : SrvOk s) (ha : Allowed s (some .stat)) :
    wp serveStat (fun r s' => ReplyOk (r, none) s') (fun _ _ => True) s := by
  refine wp_lookup fun hu => ?_
  cases hl : openfileLookup s.tab (pageWord s.req 0) with
  | error r => exact replyOk_of_disk h h.dirs (Later.refl _) r rfl ⟨s.tab.fd, rfl⟩
  | ok i =>
    obtain ⟨hw, hname⟩ := ha
    refine wp_bind_ok (show openFileOf i s = .ok (s.tab.opentab i).oFile s from rfl) ?_
    have hbig : MAXNAMELEN ≤ 2 ^ 32 := by decide
    generalize 2 ^ 32 = fuel at hbig ⊢
    refine wp_seq (strcpyReq_spec MAXNAMELEN _ 0 fuel s ⟨hu, hw⟩ hbig (by decide) (hname i hl)) ?_
    rintro _ _ ⟨req, rfl⟩
    refine wp_bind_ok (onDisk_ok (s := { s with req := req }) (load_ok _ _ s.disk)) ?_
    refine wp_bind_ok (putReqBytes_ok _ 128 { s with req := req } ⟨hu, hw⟩
      (show 128 + 4 ≤ BLKSIZE by decide)) ?_
    refine wp_bind_ok (onDisk_ok (load_ok _ _ s.disk)) ?_
    refine wp_bind_ok (putReqBytes_ok _ 132 _ ⟨hu, hw⟩ (show 132 + 4 ≤ BLKSIZE by decide)) ?_
    exact replyOk_of_disk h h.dirs (Later.refl _) 0#32 rfl ⟨s.tab.fd, rfl⟩

theorem serveFlush_spec (h : SrvOk s) :
    wp serveFlush (fun r s' => ReplyOk (r, none) s') (fun _ _ => True) s := by
  refine wp_lookup fun _ => ?_
  have hsame : ∀ r, ReplyOk (r, none) s :=
    fun r => replyOk_of_disk h h.dirs (Later.refl _) r rfl ⟨s.tab.fd, rfl⟩
  cases openfileLookup s.tab (pageWord s.req 0) with
  | error r => exact hsame r
  | ok i => exact hsame _

/-! ## §6. Handlers that do not raise the assertion. -/

section

variable {α : Type}

/-- The handler does not stop at the assertion. -/
abbrev CalmSrv (m : SrvM α) : Prop := Keeps (fun _ _ => True) (· ≠ SrvErr.panic dirAssert) m

theorem calm_onDisk {m : FsM α} (h : Calm m) : CalmSrv (onDisk m) := by
  intro s
  have hd := h s.disk
  unfold wp onDisk at *
  cases hm : m s.disk with
  | ok a u => trivial
  | error e u =>
    rw [hm] at hd
    refine ⟨fun he => ?_, trivial⟩
    cases he
    exact hd.1 rfl

theorem calm_reqByte (k : Nat) : CalmSrv (reqByte k) := by
  refine keeps_get_bind fun s => ?_
  exact keeps_ite (keeps_ite (keeps_throw _ (by intro h; cases h)) (keeps_pure _))
    (calm_onDisk (calm_diskByte _)) s

theorem calm_putReqByte (k : Nat) (x : Byte) : CalmSrv (putReqByte k x) := by
  refine keeps_get_bind fun s => ?_
  have hset : ∀ t : Srv, CalmSrv (set t : SrvM PUnit) := fun _ _ => trivial
  exact keeps_ite (keeps_ite (keeps_throw _ (by intro h; cases h)) (hset _))
    (calm_onDisk ((calm_load _ _).bind fun w => calm_store _ _ _)) s

theorem calm_getOffset (i : Nat) : CalmSrv (getOffset i) := by
  refine keeps_get_bind fun s => ?_
  cases s.tab.fdPage i with
  | none => exact ⟨(by intro h; cases h), trivial⟩
  | some p => trivial

theorem calm_addOffset (i : Nat) (r : Word) : CalmSrv (addOffset i r) := by
  refine keeps_get_bind fun s => ?_
  cases s.tab.fdPage i with
  | none => exact ⟨(by intro h; cases h), trivial⟩
  | some p => trivial

end

theorem calm_lookup : CalmSrv lookupReq :=
  Keeps.bind ((calm_reqByte 0).bind fun _ => (calm_reqByte 1).bind fun _ =>
    (calm_reqByte 2).bind fun _ => (calm_reqByte 3).bind fun _ => keeps_pure _)
    fun _ => keeps_get.bind fun _ => keeps_pure _

theorem calm_rules : HandlerRules (fun m => CalmSrv m) (fun _ => True) where
  pure := keeps_pure
  bind := Keeps.bind
  reqByte := calm_reqByte
  lookup herr hok := by
    refine calm_lookup.bind fun r => ?_
    cases r with
    | error r => exact herr r
    | ok i => exact hok i trivial
  openFileOf _ := fun _ => trivial
  getOffset := fun _ => calm_getOffset _
  addOffset := fun _ r => calm_addOffset _ r
  load _ _ := calm_onDisk (calm_load _ _)
  diskByte _ := calm_onDisk (calm_diskByte _)
  diskBytes _ _ := calm_onDisk (calm_diskBytes _ _)
  putDiskBytes _ _ := calm_onDisk (calm_putDiskBytes _ _)
  getBlock _ _ := calm_onDisk (calm_fileGetBlock _ _)
  setSize _ _ := calm_onDisk (calm_fileSetSize _ _)
  overrun := keeps_throw _ (by decide)

/-- Only `serve_open` looks into directories. -/
theorem calm_handle (mem : Bool) {q : Option FsReq} (hq : q ≠ some .open_) :
    CalmSrv (handle mem q) := by
  have hfin : ∀ {m : SrvM Word}, CalmSrv m →
      CalmSrv (do return (← m, none) : SrvM (Word × Option Nat)) :=
    fun hm => hm.bind fun r => keeps_pure _
  cases q with
  | none => exact keeps_pure _
  | some q =>
    cases q with
    | open_ => exact absurd rfl hq
    | setSize => exact hfin calm_rules.serveSetSize
    | read => exact hfin (calm_rules.serveRead calm_putReqByte)
    | write => exact hfin calm_rules.serveWrite
    | stat => exact hfin (calm_rules.serveStat calm_putReqByte)
    | flush => exact hfin calm_rules.serveFlush
    | remove => exact keeps_pure _
    | sync => exact hfin (keeps_pure _)

/-! ## §7. Runs. -/

/-- **One request** that is allowed. -/
theorem serve_spec (h : SrvOk s) (mem : Bool) (code : Word) (ha : Allowed s (fsReq code)) :
    wp (serve mem code) (fun r s' => SrvOk s' ∧ ∀ v i, r = some (v, some i) →
        (s'.tab.opentab i).oFile ∈ allFiles s'.disk)
      (fun e _ => e ≠ .panic dirAssert) s := by
  have hfin : ∀ {m : SrvM Word}, wp m (fun r s' => ReplyOk (r, none) s') (fun _ _ => True) s →
      wp (do return (← m, none) : SrvM (Word × Option Nat)) ReplyOk (fun _ _ => True) s :=
    fun hm => wp_seq hm fun _ _ hr => hr
  have hsame : ∀ r, ReplyOk (r, none) s :=
    fun r => replyOk_of_disk h h.dirs (Later.refl _) r rfl ⟨s.tab.fd, rfl⟩
  have hhandle : wp (handle mem (fsReq code)) ReplyOk (fun e _ => e ≠ .panic dirAssert) s := by
    generalize fsReq code = q at ha
    by_cases hq : q = some .open_
    · subst hq
      exact serveOpen_spec h ha mem
    · have hstate : wp (handle mem q) ReplyOk (fun _ _ => True) s := by
        cases q with
        | none => exact hsame _
        | some q =>
          cases q with
          | open_ => exact absurd rfl hq
          | setSize => exact hfin (serveSetSize_spec h ha)
          | read => exact hfin (serveRead_keeps h ha)
          | write => exact hfin (serveWrite_spec h ha)
          | stat => exact hfin (serveStat_spec h ha)
          | flush => exact hfin (serveFlush_spec h)
          | remove => exact hsame _
          | sync => exact hfin (hsame _)
      exact wp_mono (wp_and hstate (calm_handle mem hq s)) (fun _ _ h => h.1) (fun _ _ h => h.2.1)
  refine wp_get_bind ?_
  split
  · exact ⟨h, fun v i hv => by cases hv⟩
  · refine wp_seq hhandle ?_
    rintro ⟨v, i⟩ s' ⟨hs', hfile⟩
    refine ⟨hs', fun v' i' hv => ?_⟩
    cases hv
    exact hfile i' rfl

/-- The client takes the page in the reply, if there is one. -/
def Srv.deliver (s : Srv) : Option (Word × Option Nat) → Srv
  | some (_, some i) =>
    match s.tab.fdPage i with
    | some p => { s with tab := s.tab.setMaps p (s.tab.maps p + 1) }
    | none => s
  | _ => s

def Srv.arrive (s : Srv) (page : Nat → Byte) (perm : Word) : Srv :=
  { s with req := page, reqPerm := perm }

/-- Steps: a request of any client, with or without taking the page of the
reply; and whatever clients do with the `Fd` pages they have. -/
inductive ReqStep (pre : Srv → Option FsReq → Prop) (s : Srv) : Srv → Prop
  | request {page : Nat → Byte} {perm : Word} {mem : Bool} {code : Word}
      {r : Option (Word × Option Nat)} {s' : Srv} (take : Bool)
      (hpre : pre (s.arrive page perm) (fsReq code))
      (hrun : serve mem code (s.arrive page perm) = .ok r s') :
      ReqStep pre s (if take then s'.deliver r else s')
  | clients (fd : Nat → FdPage) (maps : Nat → Nat)
      (hmaps : ∀ p, s.tab.maps p = 0 → maps p = 0) :
      ReqStep pre s { s with tab := { s.tab with fd := fd, maps := maps } }

theorem ReqStep.keeps {s s' : Srv} (h : SrvOk s) (hs : ReqStep Allowed s s') : SrvOk s' := by
  cases hs with
  | @request page perm mem code r s₁ take hpre hrun =>
    have harr : SrvOk (s.arrive page perm) := ⟨h.dirs, h.tab⟩
    obtain ⟨hok, hfile⟩ := wp_ok (serve_spec harr mem code hpre) hrun
    cases take with
    | false => exact hok
    | true =>
      show SrvOk (s₁.deliver r)
      unfold Srv.deliver
      split
      · rename_i v i
        cases hp : s₁.tab.fdPage i with
        | some p => exact ⟨hok.dirs, hok.tab.map hp (hfile v i rfl) _⟩
        | none => exact hok
      · exact hok
  | clients fd maps hmaps =>
    refine ⟨h.dirs, h.tab.page_lt, h.tab.page_inj, ?_, ?_⟩
    · exact fun p hp => hmaps p (h.tab.fresh p hp)
    · exact fun i p hp hm => h.tab.file i p hp fun h0 => hm (hmaps p h0)

theorem tabOk_init (d : Disk) : TabOk serveInit d :=
  ⟨fun i p hp => (by cases hp), fun i j p hp => (by cases hp), fun _ _ => rfl,
    fun i p hp => (by cases hp)⟩

/-- **Sizes of directories.**  From a server that has just started on a disk
with good directories, in every state reached by requests that are allowed,
every directory has a size that is a multiple of the block size, both
assertions pass for it, and no request that is allowed stops the server at the
assertion. -/
theorem dir_sizes {s₀ s : Srv} (hd : DirOk s₀.disk) (ht : s₀.tab = serveInit)
    (hrun : Relation.ReflTransGen (ReqStep Allowed) s₀ s) :
    (∀ g ∈ allFiles s.disk, fileType s.disk g = FTYPE_DIR →
      0 ≤ (s.disk g.blk g.fSize).toInt ∧ fileSize s.disk g % BLKSIZE = 0 ∧
        ∃ n, dirNblock g s.disk = .ok n s.disk) ∧
    ∀ page perm mem code, Allowed (s.arrive page perm) (fsReq code) →
      ∀ s', serve mem code (s.arrive page perm) ≠ .error (.panic dirAssert) s' := by
  have h : SrvOk s := by
    induction hrun with
    | refl => exact ⟨hd, by rw [ht]; exact tabOk_init _⟩
    | tail _ hstep ih => exact hstep.keeps ih
  refine ⟨fun g hg hdir => ⟨?_, h.dirs.size g hg hdir, _, dirNblock_ok h.dirs hg hdir⟩, ?_⟩
  · have hmax := h.dirs.inv.size_le g hg
    unfold MAXFILESIZE NDIRECT NINDIRECT BLKSIZE fileSize at hmax
    rw [BitVec.toInt_eq_toNat_of_lt (by omega)]
    omega
  · intro page perm mem code ha s' herr
    have harr : SrvOk (s.arrive page perm) := ⟨h.dirs, h.tab⟩
    exact wp_error (serve_spec harr mem code ha) herr rfl

/-! ## §8. Two requests on the small disk. -/

def freshServer : Srv := ⟨smallDisk, serveInit, fun _ => 0#8, 0#32⟩

theorem smallDisk_dirOk : DirOk smallDisk := by
  have hdir : ∀ g ∈ allFiles smallDisk, fileType smallDisk g = FTYPE_DIR → g = sRoot := by
    intro g hg hd
    rw [smallDisk_allFiles] at hg
    rcases hg with rfl | ⟨k, hk, rfl⟩
    · rfl
    · unfold fileType at hd
      rw [smallDisk_three] at hd
      exact absurd hd (by decide)
  refine ⟨smallDisk_sound.inv, fun g hg hd => ?_, fun g hg hd n hn => ?_⟩
  · rw [hdir g hg hd]
    decide
  · rw [hdir g hg hd] at hn ⊢
    replace hn : n < 1 := hn
    rw [Nat.lt_one_iff.mp hn]
    decide

theorem smallDisk_dirRoom : DirRoom smallDisk := by
  intro g hg hd
  rw [smallDisk_allFiles] at hg
  rcases hg with rfl | ⟨k, hk, rfl⟩
  · decide
  · unfold fileType at hd
    rw [smallDisk_three] at hd
    exact absurd hd (by decide)

def usualPerm : Word := PTE_P ||| PTE_U ||| PTE_W

/-- `open("/", O_RDONLY)`. -/
def rootPage : Nat → Byte := fun k => if k = 0 then slash else 0#8

/-- `ftruncate` of file 1024 to 100 bytes. -/
def sizePage : Nat → Byte := fun k => if k = 1 then 4#8 else if k = 4 then 100#8 else 0#8

/-- The server after the root directory has been opened. -/
def rootOpen : Srv where
  disk := smallDisk
  tab := ((serveInit.newPage 0).bump 0).fill 0 sRoot 0#32
  req := rootPage
  reqPerm := usualPerm

theorem serve_open_root :
    serve true 1#32 (freshServer.arrive rootPage usualPerm) = .ok (some (0#32, some 0))
      rootOpen := by
  have hwalk : walkPath [slash] smallDisk = .ok ⟨0#32, none, some sRoot, []⟩ smallDisk := by
    show walkPathFrom none sRoot [] smallDisk = _
    unfold walkPathFrom
    rfl
  have hfile : fileOpen [slash] smallDisk = .ok (0#32, some sRoot) smallDisk := by
    unfold fileOpen
    rw [bind_ok hwalk]
    rfl
  have hdisk : openPath [slash] 0#32 smallDisk = .ok (.ok sRoot) smallDisk := by
    unfold openPath
    rw [bind_ok (show openOrCreate [slash] 0#32 smallDisk = .ok (0#32, some sRoot) smallDisk from
      hfile)]
    show (fileOpen [slash] >>= fun r => _) smallDisk = _
    rw [bind_ok hfile]
    rfl
  have hbytes := reqBytes_ok (s := freshServer.arrive rootPage usualPerm) (by decide)
    (MAXPATHLEN - 1) 0 (by decide)
  have hopen : serveOpen true (freshServer.arrive rootPage usualPerm) =
      .ok (0#32, some 0) rootOpen := by
    unfold serveOpen
    rw [bind_ok hbytes]
    show (onDisk (openPath [slash] 0#32) >>= fun r =>
      _) { freshServer.arrive rootPage usualPerm with
      tab := (serveInit.newPage 0).bump 0 } = _
    rw [bind_ok (onDisk_ok hdisk)]
    rfl
  unfold serve
  rw [bind_get,
    if_neg (by decide)]
  show (serveOpen true >>= fun a => pure (some a)) _ = _
  rw [bind_ok hopen]
  rfl

theorem open_root_step (pre : Srv → Option FsReq → Prop)
    (hpre : pre (freshServer.arrive rootPage usualPerm) (some .open_)) :
    ReqStep pre freshServer (rootOpen.deliver (some (0#32, some 0))) :=
  .request true hpre serve_open_root

theorem dir_sizes_root : ReqStep Allowed freshServer (rootOpen.deliver (some (0#32, some 0))) ∧
    fileSize smallDisk sRoot % BLKSIZE = 0 := by
  have hstep := open_root_step Allowed
    ⟨smallDisk_sound.free, smallDisk_dirRoom, fun h => absurd rfl h⟩
  have hrun := Relation.ReflTransGen.single hstep
  obtain ⟨hdirs, -⟩ := dir_sizes smallDisk_dirOk rfl hrun
  exact ⟨hstep, (hdirs sRoot .root rfl).2.1⟩

/-- **A client sets the size of the root directory to 100**, and from then on
every path lookup stops the server. -/
theorem root_resized : ∃ s, Relation.ReflTransGen (ReqStep fun _ _ => True) freshServer s ∧
    sRoot ∈ allFiles s.disk ∧ fileType s.disk sRoot = FTYPE_DIR ∧
    fileSize s.disk sRoot % BLKSIZE = 100 ∧
    ∃ d, dirNblock sRoot s.disk = .error dirAssert d := by
  have h1 := open_root_step (fun _ _ => True) trivial
  obtain ⟨s, hrun, hroot, hsize, hassert⟩ : ∃ s, serve true 2#32
      ((rootOpen.deliver (some (0#32, some 0))).arrive sizePage usualPerm) =
        .ok (some (0#32, none)) s ∧ fileType s.disk sRoot = FTYPE_DIR ∧
      fileSize s.disk sRoot % BLKSIZE = 100 ∧ ∃ d, dirNblock sRoot s.disk = .error dirAssert d :=
    ⟨_, rfl, rfl, rfl, _, rfl⟩
  have h2 : ReqStep (fun _ _ => True) (rootOpen.deliver (some (0#32, some 0))) s :=
    .request false trivial hrun
  exact ⟨s, (Relation.ReflTransGen.single h1).tail h2, .root, hroot, hsize, hassert⟩

end Jos

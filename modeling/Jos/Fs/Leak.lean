/-
  Jos.Fs.Leak — **FILES DO NOT LEAK INTO EACH OTHER**, as long as free blocks are zero.

  Two runs make the same calls, except for the bytes they write to one file
  `f`.  Their disks differ at most in the data blocks of `f`, and a block that
  another file gets was free and so, by assumption, zero in both.  Hence every
  other file reads the same in both runs.

  The assumption is about the disk before each call.  `file_truncate_blocks`
  breaks it: it frees blocks as they are, and `file_get_block` hands them out
  as they are.
-/
import Jos.Fs.Create

namespace Jos

open Exec

/-! ## §1. Calls and runs. -/

inductive FsCall where
  | create (path : List Byte)
  | write (g : FileP) (buf : List Byte) (offset : Word)
  | setSize (g : FileP) (newsize : Word)
  | read (g : FileP) (count offset : Word)

/-- The return value, the bytes in the reader's buffer, the file created. -/
structure FsResult where
  ret : Word
  bytes : List Byte
  pf : Option FileP
  deriving DecidableEq

def FsCall.exec : FsCall → FsM FsResult
  | .create path => do
      let (r, pf) ← fileCreate path
      return ⟨r, [], pf⟩
  | .write g buf offset => do
      let r ← fileWrite g buf offset
      return ⟨r, [], none⟩
  | .setSize g newsize => do
      let r ← fileSetSize g newsize
      return ⟨r, [], none⟩
  | .read g count offset => do
      let (r, bytes) ← fileRead g count offset
      return ⟨r, bytes, none⟩

/-- The files exist, those written or resized are regular ones, and offsets and
sizes are in range. -/
def FsCall.Valid (d : Disk) : FsCall → Prop
  | .create _ => DirRoom d
  | .write g buf offset => g ∈ allFiles d ∧ fileType d g ≠ FTYPE_DIR ∧
      0 ≤ offset.toInt ∧ offset.toInt + buf.length ≤ MAXFILESIZE
  | .setSize g newsize => g ∈ allFiles d ∧ fileType d g ≠ FTYPE_DIR ∧
      0 ≤ newsize.toInt ∧ newsize.toInt ≤ MAXFILESIZE
  | .read g _ offset => g ∈ allFiles d ∧ 0 ≤ offset.toInt

/-- The same call, up to the bytes written to `f`. -/
inductive SameBut (f : FileP) : FsCall → FsCall → Prop
  | same (c : FsCall) : SameBut f c c
  | data {buf buf' : List Byte} (hlen : buf.length = buf'.length) (offset : Word) :
      SameBut f (.write f buf offset) (.write f buf' offset)

/-- A run: all calls are valid and return, each from a disk that meets `pre`. -/
inductive FsRun (pre : Disk → Prop) : Disk → List FsCall → List FsResult → Disk → Prop
  | nil (d : Disk) : FsRun pre d [] [] d
  | cons {d t d' : Disk} {c : FsCall} {cs : List FsCall} {r : FsResult} {rs : List FsResult}
      (hvalid : c.Valid d) (hpre : pre d) (hrun : c.exec d = .ok r t)
      (rest : FsRun pre t cs rs d') : FsRun pre d (c :: cs) (r :: rs) d'

variable {f : FileP}

/-! ## §2. One call. -/

/-- **One call in both runs**: the disks settle, and a read of another file
returns the same. -/
theorem exec_rel {d d' : Disk} (h : Alike f d d') {c c' : FsCall} (hc : SameBut f c c')
    (hv : c.Valid d) :
    Rel (fun r r' t t' => Settled f t t' ∧
        ((∃ g count offset, c = .read g count offset ∧ g ≠ f) → r = r')) c.exec c'.exec d d' := by
  -- writes of the same bytes and of other bytes to `f` are one case
  have hwrite : ∀ (g : FileP) (buf buf' : List Byte) (offset : Word),
      (FsCall.write g buf offset).Valid d → buf.length = buf'.length → (g ≠ f → buf = buf') →
      Rel (fun _ _ t t' => Settled f t t') (FsCall.write g buf offset).exec
        (FsCall.write g buf' offset).exec d d' := by
    intro g buf buf' offset hvw hlen hbuf
    obtain ⟨hg, hreg, hoff, hmax⟩ := hvw
    obtain ⟨hnat, heq⟩ := toNat_of_nonneg hoff
    refine rel_bind (fileWrite_rel h hg hreg (by omega) hlen hbuf) ?_
    intro r t r' t' _ _ hal
    exact rel_pure hal.settled
  cases hc with
  | data hlen offset =>
    refine rel_mono (hwrite f _ _ offset hv hlen (fun hne => absurd rfl hne)) ?_
    intro r r' t t' hset
    refine ⟨hset, ?_⟩
    intro ⟨_, _, _, hread, _⟩
    cases hread
  | same =>
    cases c with
    | create path =>
      refine rel_bind (fileCreate_rel h hv path) ?_
      intro r t r' t' _ _ hr
      obtain ⟨rfl, hal⟩ := hr
      exact rel_pure ⟨hal.settled, fun _ => rfl⟩
    | write g buf offset =>
      refine rel_mono (hwrite g buf buf offset hv rfl (fun _ => rfl)) ?_
      intro r r' t t' hset
      refine ⟨hset, ?_⟩
      intro ⟨_, _, _, hread, _⟩
      cases hread
    | setSize g newsize =>
      obtain ⟨hg, hreg, hlo, hhi⟩ := hv
      obtain ⟨hnat, heq⟩ := toNat_of_nonneg hlo
      refine rel_bind (fileSetSize_rel h hg hreg (by omega)) ?_
      intro r t r' t' _ _ hset
      refine rel_pure ⟨hset, ?_⟩
      intro ⟨_, _, _, hread, _⟩
      cases hread
    | read g count offset =>
      obtain ⟨hg, hoff⟩ := hv
      refine rel_bind (fileRead_rel h hg count (toNat_of_nonneg hoff).1) ?_
      intro r t r' t' _ _ hr
      obtain ⟨hal, hr⟩ := hr
      refine rel_pure ⟨hal.settled, ?_⟩
      intro ⟨g', _, _, hread, hne⟩
      cases hread
      rw [hr hne]

/-! ## §3. Whole runs. -/

theorem runs_rel {cs cs' : List FsCall} (hsame : List.Forall₂ (SameBut f) cs cs') :
    ∀ {d d' t t' : Disk} {rs rs' : List FsResult}, Settled f d d' →
      FsRun FreeZero d cs rs t → FsRun FreeZero d' cs' rs' t' →
      ∀ (i : Nat) (g : FileP) (count offset : Word), cs[i]? = some (.read g count offset) → g ≠ f →
        rs[i]? = rs'[i]? := by
  induction hsame with
  | nil =>
    intro d d' t t' rs rs' _ _ _ i g count offset hi
    simp at hi
  | cons hc _ ih =>
    intro d d' t t' rs rs' hset hrun hrun' i g count offset hi hne
    cases hrun with
    | cons hv hz hex hrest =>
      cases hrun' with
      | cons _ hz' hex' hrest' =>
        obtain ⟨hset₁, heq⟩ := exec_rel (hset.alike hz hz') hc hv _ _ _ _ hex hex'
        cases i with
        | zero =>
          have h0 := Option.some.inj hi
          exact congrArg some (heq ⟨g, count, offset, h0, hne⟩)
        | succ i => exact ih hset₁ hrest hrest' i g count offset hi hne

/-- **Files do not leak into each other.**  Two runs from one consistent disk
make the same calls up to the bytes they write to `f`, and before each call all
free blocks are zero: then a read of any other file returns the same bytes in
both. -/
theorem files_do_not_leak {d₀ d d' : Disk} (h₀ : Consistent d₀) {cs cs' : List FsCall}
    {rs rs' : List FsResult} (hsame : List.Forall₂ (SameBut f) cs cs')
    (hrun : FsRun FreeZero d₀ cs rs d) (hrun' : FsRun FreeZero d₀ cs' rs' d') (i : Nat)
    (g : FileP) (count offset : Word) (hread : cs[i]? = some (.read g count offset))
    (hne : g ≠ f) : rs[i]? = rs'[i]? :=
  runs_rel hsame ⟨h₀, h₀, fun _ _ => rfl⟩ hrun hrun' i g count offset hread hne

/-! ## §4. The small disk. -/

theorem smallDisk_isFile {d : Disk} (hroot : fileType d sRoot = FTYPE_DIR)
    (hslot : slotVal d (fileSlot sRoot 0) = 3#32) {k : Nat} (hk : k < 16) :
    (⟨3, 64 * k⟩ : FileP) ∈ allFiles d := by
  have h := IsFile.entry (n := 0) .root hroot (by decide) (by rw [hslot]; decide) hk
  rw [hslot] at h
  exact h

theorem smallDisk_allFiles : allFiles smallDisk = smallFiles := by
  apply Set.Subset.antisymm
  · intro f hf
    induction hf with
    | root => exact Or.inl rfl
    | @entry g n k hg hdir hn h0 hk ih =>
      rw [smallDisk_slot (fileSlot_in ih hn)] at h0 ⊢
      by_cases he : fileSlot g n = .direct sRoot 0
      · rw [if_pos he]
        exact Or.inr ⟨k, hk, rfl⟩
      · rw [if_neg he] at h0
        exact absurd rfl h0
  · intro f hf
    rcases hf with rfl | ⟨k, hk, rfl⟩
    · exact .root
    · exact smallDisk_isFile rfl rfl hk

theorem smallDisk_sound : Sound smallDisk := by
  refine ⟨?_, ?_⟩
  · rw [smallDisk_allFiles]
    exact smallDisk_inv
  · intro b hb hu i
    replace hb : b < 8 := hb
    have hb4 : 4 ≤ b := by
      by_contra hlt
      apply hu
      have : b < 4 := by omega
      interval_cases b <;> decide
    unfold smallDisk
    split <;> first | omega | rfl

/-- Two files of the root directory of the small disk. -/
def fileA : FileP := ⟨3, 64 * 1⟩
def fileB : FileP := ⟨3, 64 * 2⟩

/-- Write a byte to one file, then read the root directory. -/
def writeThenRead (x : Byte) : List FsCall :=
  [.write fileA [x] 0#32, .read sRoot 4#32 0#32]

theorem files_do_not_leak_root : ∃ rs rs' d d',
    FsRun FreeZero smallDisk (writeThenRead 1#8) rs d ∧
      FsRun FreeZero smallDisk (writeThenRead 2#8) rs' d' ∧ rs[1]? = rs'[1]? := by
  have hsame : List.Forall₂ (SameBut fileA) (writeThenRead 1#8) (writeThenRead 2#8) :=
    .cons (.data (by decide) _) (.cons (.same _) .nil)
  have hal : Alike fileA smallDisk smallDisk :=
    ⟨smallDisk_sound, smallDisk_sound, fun _ _ => rfl⟩
  have hf : fileA ∈ allFiles smallDisk := smallDisk_isFile rfl rfl (by decide)
  have hv : ∀ x : Byte, (FsCall.write fileA [x] 0#32).Valid smallDisk :=
    fun x => ⟨hf, by decide, by decide, by show (0 : Int) + 1 ≤ _; decide⟩
  obtain ⟨r₁, t, r₂, d, ht, hd⟩ : ∃ r₁ t r₂ d,
      (FsCall.write fileA [1#8] 0#32).exec smallDisk = .ok r₁ t ∧
      (FsCall.read sRoot 4#32 0#32).exec t = .ok r₂ d := ⟨_, _, _, _, rfl, rfl⟩
  obtain ⟨r₁', t', r₂', d', ht', hd'⟩ : ∃ r₁ t r₂ d,
      (FsCall.write fileA [2#8] 0#32).exec smallDisk = .ok r₁ t ∧
      (FsCall.read sRoot 4#32 0#32).exec t = .ok r₂ d := ⟨_, _, _, _, rfl, rfl⟩
  have hrel : Rel (fun _ _ t t' => Alike fileA t t') (fileWrite fileA [1#8] 0#32)
      (fileWrite fileA [2#8] 0#32) smallDisk smallDisk :=
    fileWrite_rel hal hf (by decide) (by decide) (by decide) (fun hne => absurd rfl hne)
  have halt : Alike fileA t t' := by
    obtain ⟨_, _, hw, hp⟩ := bind_inv ht
    obtain ⟨_, _, hw', hp'⟩ := bind_inv ht'
    cases hp
    cases hp'
    exact hrel _ _ _ _ hw hw'
  have hrun : FsRun FreeZero smallDisk (writeThenRead 1#8) [r₁, r₂] d :=
    .cons (hv 1#8) smallDisk_sound.free ht
      (.cons ⟨.root, by decide⟩ halt.left.free hd (.nil d))
  have hrun' : FsRun FreeZero smallDisk (writeThenRead 2#8) [r₁', r₂'] d' :=
    .cons (hv 2#8) smallDisk_sound.free ht'
      (.cons ⟨.root, by decide⟩ halt.right.free hd' (.nil d'))
  exact ⟨_, _, d, d', hrun, hrun', files_do_not_leak smallDisk_sound.inv hsame hrun hrun' 1 sRoot
    4#32 0#32 rfl (by decide)⟩

/-- Write a byte, truncate the file, lengthen another one and read it. -/
def truncateAndRead (x : Byte) : List FsCall :=
  [.write fileA [x] 0#32, .setSize fileA 0#32, .setSize fileB 1#32, .read fileB 1#32 0#32]

/-- **The byte shows up in the other file.** -/
theorem truncated_block_leaks : ∃ rs rs' d d',
    FsRun (fun _ => True) smallDisk (truncateAndRead 1#8) rs d ∧
      FsRun (fun _ => True) smallDisk (truncateAndRead 2#8) rs' d' ∧
      List.Forall₂ (SameBut fileA) (truncateAndRead 1#8) (truncateAndRead 2#8) ∧
      rs[3]? = some ⟨1#32, [1#8], none⟩ ∧ rs'[3]? = some ⟨1#32, [2#8], none⟩ := by
  have hrun : ∀ x : Byte, x = 1#8 ∨ x = 2#8 → ∃ rs d,
      FsRun (fun _ => True) smallDisk (truncateAndRead x) rs d ∧
        rs[3]? = some ⟨1#32, [x], none⟩ := by
    intro x hx
    rcases hx with rfl | rfl
    all_goals exact
      ⟨_, _, .cons ⟨smallDisk_isFile rfl rfl (by decide), by decide, by decide, by decide⟩
        trivial rfl (.cons ⟨smallDisk_isFile rfl rfl (by decide), by decide, by decide, by decide⟩
        trivial rfl (.cons ⟨smallDisk_isFile rfl rfl (by decide), by decide, by decide, by decide⟩
        trivial rfl (.cons ⟨smallDisk_isFile rfl rfl (by decide), by decide⟩ trivial rfl
          (.nil _)))),
        rfl⟩
  obtain ⟨rs, d, hr, h3⟩ := hrun 1#8 (Or.inl rfl)
  obtain ⟨rs', d', hr', h3'⟩ := hrun 2#8 (Or.inr rfl)
  exact ⟨rs, rs', d, d', hr, hr', .cons (.data (by decide) _)
    (.cons (.same _) (.cons (.same _) (.cons (.same _) .nil))), h3, h3'⟩

end Jos

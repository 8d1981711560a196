/-
  Jos.Fs.ByteArray — **A FILE IS AN ARRAY OF BYTES** (`file_read` and `file_write` in `fs/fs.c`).

  Both loops go from chunk to chunk: `file_get_block`, then a `memmove` within the
  block.  `Wrote` says what a stretch of such chunks has done, and two stretches
  that follow each other make one (`Wrote.append`); a stretch that only reads is
  one that has written nothing.  The loops then need one chunk and an induction.

    • `fileWriteLoop_wrote`, `fileReadLoop_read` : the loops,
    • `fileWrite_wrote`, `fileRead_read`         : the functions,
    • `file_is_byte_array`, `file_access_inside` : files among other files.
-/
import Jos.Fs.OneFile
import Jos.Fs.Format
import Jos.Fs.DirSize

namespace Jos

open Exec
open Fmt (Holds InWord putDiskBytes_holds)

variable {d₁ : Disk} {xs : List Byte} {a b hi n : Nat} {offset : Word}

variable {d d' : Disk} {f : FileP}

/-! ## §1. One chunk. -/

/-- The bytes `xs` have been written to `f` from byte `a` on. -/
structure Wrote (f : FileP) (a : Nat) (xs : List Byte) (d d' : Disk) : Prop where
  ok : FileOk d' f
  touch : Touch f d d'
  size : d' f.blk f.fSize = d f.blk f.fSize
  filled : Filled d' f a (a + xs.length)
  bytes : ∀ k (h : k < xs.length), fileByte d' f (a + k) = xs[k]
  kept : ∀ m, m / BLKSIZE < NDIRECT + NINDIRECT → slotVal d (fileSlot f (m / BLKSIZE)) ≠ 0#32 →
    (m < a ∨ a + xs.length ≤ m) → fileByte d' f m = fileByte d f m

theorem Wrote.refl (h : FileOk d f) (a : Nat) : Wrote f a [] d d :=
  ⟨h, Touch.refl f d, rfl, fun k h1 h2 => absurd h1 (by rw [List.length_nil] at h2; omega),
    fun k hk => absurd hk (Nat.not_lt_zero k), fun _ _ _ _ => rfl⟩

theorem Touch.filled (ht : Touch f d d') (hfill : Filled d f a b) : Filled d' f a b := by
  intro k hak hkb
  obtain ⟨hn, h0⟩ := hfill k hak hkb
  refine ⟨hn, ?_⟩
  rw [ht.kept _ (fileSlot_of f hn) h0]
  exact h0

theorem Wrote.append {d₁ d₂ : Disk} {xs ys : List Byte} (h : Wrote f a xs d d₁)
    (h' : Wrote f (a + xs.length) ys d₁ d₂) : Wrote f a (xs ++ ys) d d₂ := by
  refine ⟨h'.ok, h.touch.trans h'.touch, h'.size.trans h.size, ?_, ?_, ?_⟩
  · intro k hak hkb
    rw [List.length_append] at hkb
    by_cases hk : k < a + xs.length
    · exact h'.touch.filled h.filled k hak hk
    · exact h'.filled k (by omega) (by omega)
  · intro k hk
    rw [List.length_append] at hk
    by_cases hlt : k < xs.length
    · obtain ⟨hn, h0⟩ := h.filled (a + k) (by omega) (by omega)
      rw [h'.kept _ hn h0 (Or.inl (by omega)), h.bytes k hlt, List.getElem_append_left hlt]
    · have hy := h'.bytes (k - xs.length) (by omega)
      rw [show a + xs.length + (k - xs.length) = a + k by omega] at hy
      rw [hy, List.getElem_append_right (by omega)]
  · intro m hn h0 hm
    rw [List.length_append] at hm
    rw [h'.kept m hn (by rw [h.touch.kept _ (fileSlot_of f hn) h0]; exact h0) (by omega),
      h.kept m hn h0 (by omega)]

theorem fileBytes_eq
    (h : ∀ k (hk : k < xs.length), fileByte d f (a + k) = xs[k]) : fileBytes d f a xs.length =
      xs := by
  apply List.ext_getElem
  · rw [fileBytes_length]
  · intro k h1 h2
    simp only [fileBytes, List.getElem_map, List.getElem_range', Nat.one_mul]
    exact h k h2

/-- `file_get_block` does not touch the data blocks there are. -/
theorem GotSlot.data_eq (h : FileOk d f) {n b m : Nat} (hgot : GotSlot f n b d d')
    (hm : m < NDIRECT + NINDIRECT) (h0 : slotVal d (fileSlot f m) ≠ 0#32) :
    d' (slotVal d (fileSlot f m)).toNat = d (slotVal d (fileSlot f m)).toNat := by
  have hs := fileSlot_of f hm
  have hk := hgot.touch.kept _ hs h0
  funext i
  refine hgot.words _ i (fun hr => h.apart _ hs h0 hr.1) (fun hb => h.slot_free _ hs h0 hb.2) ?_
  intro hi he
  -- a data block is not the indirect block
  have := hgot.ok.slot_inj _ _ hs (indirect_of f) (by rw [hk]; exact h0)
    (by rw [hk, slotVal_indirect]; exact (BitVec.eq_of_toNat_eq he).symm)
  exact fileSlot_ne_indirect _ _ _ this

theorem byteAt_block {b k : Nat} (hk : k < BLKSIZE) (hb : d' b = d b) :
    byteAt d' (b * BLKSIZE + k) = byteAt d (b * BLKSIZE + k) := by
  have hdiv : (b * BLKSIZE + k) / BLKSIZE = b := by
    unfold BLKSIZE at hk ⊢
    omega
  unfold byteAt
  rw [hdiv, hb]

theorem GotSlot.fileByte_eq (h : FileOk d f) {n b m : Nat} (hgot : GotSlot f n b d d')
    (hm : m / BLKSIZE < NDIRECT + NINDIRECT) (h0 : slotVal d (fileSlot f (m / BLKSIZE)) ≠ 0#32) :
    fileByte d' f m = fileByte d f m := by
  unfold fileByte
  rw [hgot.touch.kept _ (fileSlot_of f hm) h0]
  exact byteAt_block (Nat.mod_lt _ (by decide)) (hgot.data_eq h hm h0)

/-- A chunk that is only read. -/
theorem GotSlot.wrote (h : FileOk d f) (hgot : GotSlot f n b d d') (a : Nat) : Wrote f a [] d d' :=
  ⟨hgot.ok, hgot.touch, hgot.size, fun k h1 h2 => absurd h1 (by rw [List.length_nil] at h2; omega),
    fun k hk => absurd hk (Nat.not_lt_zero k), fun _ hm h0 _ => hgot.fileByte_eq h hm h0⟩

/-- Stores to a data block of `f` leave all else as it is. -/
theorem FileOk.store_data (h : FileOk d f) (hn : n < NDIRECT + NINDIRECT)
    (h0 : slotVal d (fileSlot f n) ≠ 0#32)
    (heq : ∀ p, p ≠ (slotVal d (fileSlot f n)).toNat → d' p = d p) :
    FileOk d' f ∧ Touch f d d' ∧ (∀ s : BlockSlot, s.Of f → slotVal d' s = slotVal d s) ∧
      d' f.blk = d f.blk := by
  have hs := fileSlot_of f hn
  have hr := h.slot_free _ hs h0
  have hrec : d' f.blk = d f.blk := heq _ (h.apart _ hs h0).symm
  have hslot : ∀ s : BlockSlot, s.Of f → slotVal d' s = slotVal d s := by
    intro s hs'
    obtain rfl : s.file = f := hs'.mem
    refine slotVal_congr hs' (fun a _ _ => by rw [hrec]) fun hz j _ => ?_
    rw [heq]
    intro he
    have := h.slot_inj _ _ (indirect_of s.file) hs hz (BitVec.eq_of_toNat_eq he)
    exact fileSlot_ne_indirect _ _ _ this.symm
  have hbits : ∀ c, Reserved d (bitmapBlk c) → (inUse d' c ↔ inUse d c) :=
    fun c hc => inUse_congr (heq _ fun he => hr (he ▸ hc))
  have hnb : d' 1 1 = d 1 1 := by rw [heq 1 fun he => hr (he ▸ reserved_one)]
  refine ⟨h.of_same hnb (fun c hc hu => (hbits c (reserved_bitmapBlk hc)).mpr hu) hslot,
    ⟨hnb, fun s hs' _ => hslot s hs', ?_, fun c hc _ => hbits c hc⟩, hslot, hrec⟩
  intro p i _ _ hp
  have hne := hp _ hs (by rw [hslot _ hs]; exact h0)
  rw [hslot _ hs] at hne
  rw [heq p hne.symm]

/-- **One chunk of a write.** -/
theorem GotSlot.write_chunk (h : FileOk d f)
    (hgot : GotSlot f (a / BLKSIZE) b d d₁) (hn : a / BLKSIZE < NDIRECT + NINDIRECT)
    (hlen : a % BLKSIZE + xs.length ≤ BLKSIZE) :
    wp (putDiskBytes (b * BLKSIZE + a % BLKSIZE) xs)
      (fun _ d₂ => Wrote f a xs d d₂ ∧ Touch f d₁ d₂ ∧
        ∀ s : BlockSlot, s.Of f → slotVal d₂ s = slotVal d₁ s) (fun _ _ => False) d₁ := by
  refine wp_mono (putDiskBytes_holds xs (b * BLKSIZE + a % BLKSIZE) d₁) ?_ (fun _ _ h => h)
  intro _ d₂ hpost
  obtain ⟨hholds, hbytes, hwords⟩ := hpost
  have hb := hgot.block
  have h₁ := hgot.ok
  -- only the block is stored to
  have hother : ∀ p, p ≠ b → d₂ p = d₁ p := by
    intro p hp
    funext i
    refine hwords p i fun k hk hw => hp ?_
    unfold InWord at hw
    unfold BLKSIZE at hw hlen
    omega
  obtain ⟨h₂, htouch₂, hslot₂, hrec₂⟩ := h₁.store_data hn hgot.set (by rw [hb]; exact hother)
  have hin : ∀ k < xs.length, (a + k) / BLKSIZE = a / BLKSIZE ∧
      (a + k) % BLKSIZE = a % BLKSIZE + k := by
    intro k hk
    unfold BLKSIZE at hlen ⊢
    omega
  refine ⟨⟨h₂, hgot.touch.trans htouch₂, by rw [hrec₂]; exact hgot.size, ?_, ?_, ?_⟩, htouch₂,
    hslot₂⟩
  · intro k hak hkb
    obtain ⟨k, rfl⟩ := Nat.exists_eq_add_of_le hak
    rw [(hin k (by omega)).1, hslot₂ _ (fileSlot_of f hn)]
    exact ⟨hn, hgot.set⟩
  · intro k hk
    unfold fileByte
    rw [(hin k hk).1, (hin k hk).2, hslot₂ _ (fileSlot_of f hn), hb, ← hholds k hk, Nat.add_assoc]
  · intro m hm h0 hout
    have hk := hgot.touch.kept _ (fileSlot_of f hm) h0
    rw [← hgot.fileByte_eq h hm h0]
    unfold fileByte
    rw [hslot₂ _ (fileSlot_of f hm)]
    refine hbytes _ ?_
    by_cases he : m / BLKSIZE = a / BLKSIZE
    · unfold BLKSIZE at he hout hlen ⊢
      omega
    · -- another block of the file is another block of the disk
      have hne : (slotVal d₁ (fileSlot f (m / BLKSIZE))).toNat ≠ b := by
        rw [← hb]
        intro hc
        have := h₁.slot_inj _ _ (fileSlot_of f hm) (fileSlot_of f hn) (by rw [hk]; exact h0)
          (BitVec.eq_of_toNat_eq hc)
        exact he (fileSlot_inj this).2
      have hmod : m % BLKSIZE < BLKSIZE := Nat.mod_lt _ (by decide)
      generalize (slotVal d₁ (fileSlot f (m / BLKSIZE))).toNat = q at hne ⊢
      unfold BLKSIZE at hmod hlen ⊢
      omega

/-! ## §2. The loops. -/

/-- The blocks that hold the bytes from `a` up to `stop` lie below this one. -/
def blocksTo (a stop : Nat) : Nat := if a < stop then (stop + 4095) / 4096 else a / 4096

theorem blocksTo_le {a a' stop : Nat} (ha : a < stop) (ha' : a' ≤ stop) :
    blocksTo a' stop ≤ blocksTo a stop := by
  unfold blocksTo
  split <;> omega

theorem lt_blocksTo {a stop : Nat} (h : a < stop) : a / BLKSIZE < blocksTo a stop := by
  unfold blocksTo BLKSIZE
  rw [if_pos h]
  omega

/-- The loops stop the server only when the disk is full, with nothing else touched. -/
def NoRoom (f : FileP) (lo hi : Nat) (d d' : Disk) : Prop :=
  Touch f d d' ∧ ∀ S, Covers S f lo hi → ¬ HasRoom d S

theorem Refused.noRoom (h : Refused f n d d') (hn : n < NDIRECT + NINDIRECT)
    (hhi : n < hi) : NoRoom f n hi d d' :=
  ⟨h.touch, fun _ hS => h.no_room hS (Nat.le_refl n) hhi hn⟩

theorem NoRoom.earlier {lo lo' hi hi' : Nat} (h : NoRoom f lo' hi' d₁ d') (hlo : lo ≤ lo')
    (hhi : hi' ≤ hi) (ht : Touch f d d₁) (hroom : ∀ S, Covers S f lo hi → HasRoom d S →
      HasRoom d₁ S) :
    NoRoom f lo hi d d' :=
  ⟨ht.trans h.1, fun S hS hr => h.2 S (hS.mono hlo hhi) (hroom S hS hr)⟩

/-- Data that is written needs no further block. -/
theorem HasRoom.of_data {S : Finset BlockSlot} (h : HasRoom d S) (hS : ∀ s ∈ S, s.Of f)
    (ht : Touch f d d') (hslot : ∀ s : BlockSlot, s.Of f → slotVal d' s = slotVal d s) : HasRoom
      d' S :=
  h.touch hS ht fun s hs h0 hne => absurd (hslot s hs ▸ h0) hne

section

variable {stop : Word}

/-- The arithmetic of one pass: the block, the place in it, and the chunk. -/
theorem pass_eq {pos : Word} (hpos : pos.toNat < 2 ^ 31) (hlt : pos < stop) :
    (pos.sdiv 4096#32).toNat = pos.toNat / BLKSIZE ∧
      (∀ b, blkAddr b pos = b * BLKSIZE + pos.toNat % BLKSIZE) ∧
      (chunk stop pos).toNat = min (4096 - pos.toNat % 4096) (stop.toNat - pos.toNat) ∧
      (pos + chunk stop pos).toNat = pos.toNat + (chunk stop pos).toNat := by
  rw [BitVec.lt_def] at hlt
  have hc := chunk_toNat hpos hlt.le
  refine ⟨sdiv_toNat hpos, fun b => blkAddr_eq b hpos, hc, ?_⟩
  rw [BitVec.toNat_add]
  omega

/-- **The loop of `file_write`.**  It writes the buffer, or the part of it that lies
below the largest file size. -/
theorem fileWriteLoop_wrote (n : Nat) :
    ∀ (pos : Word) (buf : List Byte) (d : Disk), FileOk d f →
      (stop.toNat < 2 ^ 31 ∨ pos.toNat ≤ MAXFILESIZE) → pos.toNat + buf.length = stop.toNat →
      buf.length ≤ n →
      wp (fileWriteLoop f stop n pos buf)
        (fun r d' => ∃ xs ys, buf = xs ++ ys ∧ Wrote f pos.toNat xs d d' ∧
          ((r = none ∧ ys = []) ∨ (r = some (-E_INVAL) ∧ MAXFILESIZE < stop.toNat)))
        (fun _ d' => NoRoom f (pos.toNat / BLKSIZE) (blocksTo pos.toNat stop.toNat) d d') d := by
  induction n with
  | zero =>
    intro pos buf d h _ _ hlen
    obtain rfl := List.length_eq_zero_iff.mp (Nat.le_zero.mp hlen)
    exact ⟨[], [], rfl, .refl h _, Or.inl ⟨rfl, rfl⟩⟩
  | succ n ih =>
    intro pos buf d h hend hsum hlen
    unfold fileWriteLoop
    by_cases hlt : pos < stop
    · rw [if_pos hlt]
      have hpos : pos.toNat < 2 ^ 31 := by
        rw [BitVec.lt_def] at hlt
        unfold MAXFILESIZE NDIRECT NINDIRECT BLKSIZE at hend
        omega
      obtain ⟨hbno, haddr, hc, hnext⟩ := pass_eq hpos hlt
      rw [BitVec.lt_def] at hlt
      by_cases hn : pos.toNat / BLKSIZE < NDIRECT + NINDIRECT
      · have hhi := lt_blocksTo hlt
        refine wp_seq (wp_mono (fileGetBlock_got h (by rw [hbno]; exact hn)) (fun _ _ h => h) ?_) ?_
        · intro e d' href
          rw [hbno] at href
          exact href.noRoom hn hhi
        rintro r d₁ ⟨b, rfl, hgot⟩
        rw [hbno] at hgot
        generalize chunk stop pos = c at hc hnext ⊢
        have htake : (buf.take c.toNat).length = c.toNat := by
          rw [List.length_take]
          omega
        dsimp only
        rw [haddr b]
        refine wp_seq
          (wp_mono (hgot.write_chunk h hn (show _ + (buf.take c.toNat).length ≤ BLKSIZE from ?_))
          (fun _ _ h => h) (fun _ _ h => h.elim)) ?_
        · unfold BLKSIZE
          omega
        rintro _ d₂ ⟨hw, htouch₂, hslot₂⟩
        have hpos' : 0 < c.toNat := by omega
        refine wp_mono (ih (pos + c) (buf.drop c.toNat) d₂ hw.ok ?_ ?_ ?_) ?_ ?_
        · rw [hnext]
          unfold MAXFILESIZE NDIRECT NINDIRECT BLKSIZE at hend ⊢
          unfold NDIRECT NINDIRECT BLKSIZE at hn
          omega
        · rw [hnext, List.length_drop]
          omega
        · rw [List.length_drop]
          omega
        · rintro r d' ⟨xs, ys, hbuf, hrest, hr⟩
          refine ⟨buf.take c.toNat ++ xs, ys, ?_, ?_, hr⟩
          · rw [List.append_assoc, ← hbuf, List.take_append_drop]
          · refine hw.append ?_
            rw [htake, ← hnext]
            exact hrest
        · intro e d' hno
          refine hno.earlier ?_ (blocksTo_le hlt (by omega)) hw.touch fun S hS hroom => ?_
          · rw [hnext]
            exact Nat.div_le_div_right (Nat.le_add_right _ _)
          · exact (hgot.room hS le_rfl hhi hn hroom).of_data hS.own htouch₂ hslot₂
      · -- past the last block a file can have
        refine wp_bind_ok (fileGetBlock_range (by omega)) ?_
        refine ⟨[], buf, rfl, .refl h _, Or.inr ⟨rfl, ?_⟩⟩
        unfold MAXFILESIZE
        unfold BLKSIZE at hn ⊢
        omega
    · rw [if_neg hlt]
      rw [BitVec.lt_def] at hlt
      obtain rfl := List.length_eq_zero_iff.mp (show buf.length = 0 by omega)
      exact ⟨[], [], rfl, .refl h _, Or.inl ⟨rfl, rfl⟩⟩

/-- **The loop of `file_read`**, below the largest file size. -/
theorem fileReadLoop_read (hstop : stop.toNat ≤ MAXFILESIZE) (n : Nat) :
    ∀ (pos : Word) (buf : List Byte) (d : Disk), FileOk d f → pos.toNat ≤ stop.toNat →
      stop.toNat - pos.toNat ≤ n →
      wp (fileReadLoop f stop n pos buf)
        (fun r d' => r = (none, buf ++ fileBytes d' f pos.toNat (stop.toNat - pos.toNat)) ∧
          Wrote f pos.toNat [] d d' ∧ Filled d' f pos.toNat stop.toNat)
        (fun _ d' => NoRoom f (pos.toNat / BLKSIZE) (blocksTo pos.toNat stop.toNat) d d') d := by
  have hstop' : stop.toNat < 2 ^ 31 := by
    unfold MAXFILESIZE NDIRECT NINDIRECT BLKSIZE at hstop
    omega
  have hdone : ∀ (pos : Word) (buf : List Byte) (d : Disk), FileOk d f →
    stop.toNat - pos.toNat = 0 →
      (none, buf) = ((none : Option Word), buf ++ fileBytes d f pos.toNat
        (stop.toNat - pos.toNat)) ∧
        Wrote f pos.toNat [] d d ∧ Filled d f pos.toNat stop.toNat := by
    intro pos buf d h hz
    refine ⟨?_, .refl h _, fun k h1 h2 => absurd h1 (by omega)⟩
    rw [hz]
    simp [fileBytes]
  induction n with
  | zero =>
    intro pos buf d h _ hlen
    exact hdone pos buf d h (by omega)
  | succ n ih =>
    intro pos buf d h hle hlen
    unfold fileReadLoop
    by_cases hlt : pos < stop
    · rw [if_pos hlt]
      have hpos : pos.toNat < 2 ^ 31 := Nat.lt_of_le_of_lt hle hstop'
      obtain ⟨hbno, haddr, hc, hnext⟩ := pass_eq hpos hlt
      rw [BitVec.lt_def] at hlt
      have hn : pos.toNat / BLKSIZE < NDIRECT + NINDIRECT := by
        unfold MAXFILESIZE BLKSIZE at hstop
        unfold BLKSIZE
        omega
      have hhi := lt_blocksTo hlt
      refine wp_seq (wp_mono (fileGetBlock_got h (by rw [hbno]; exact hn)) (fun _ _ h => h) ?_) ?_
      · intro e d' href
        rw [hbno] at href
        exact href.noRoom hn hhi
      rintro r d₁ ⟨b, rfl, hgot⟩
      rw [hbno] at hgot
      generalize chunk stop pos = c at hc hnext ⊢
      refine wp_bind_ok (diskBytes_file hpos (by omega) hgot.block) ?_
      refine wp_mono (ih (pos + c) _ d₁ hgot.ok (by omega) (by omega)) ?_ ?_
      · rintro r d' ⟨rfl, hw, hfill⟩
        -- the chunk is in a block that stays
        have hchunk : Filled d₁ f pos.toNat (pos.toNat + c.toNat) := by
          intro k h1 h2
          rw [show k / BLKSIZE = pos.toNat / BLKSIZE by unfold BLKSIZE; omega]
          exact ⟨hn, hgot.set⟩
        have hsame : fileBytes d₁ f pos.toNat c.toNat = fileBytes d' f pos.toNat c.toNat := by
          apply List.map_congr_left
          intro k hk
          rw [List.mem_range'_1] at hk
          obtain ⟨hkn, hk0⟩ := hchunk k hk.1 hk.2
          exact (hw.kept k hkn hk0 (by omega)).symm
        refine ⟨?_, ?_, ?_⟩
        · rw [hsame, List.append_assoc, hnext, fileBytes_append]
          congr 3
          omega
        · have hrest : Wrote f (pos.toNat + ([] : List Byte).length) [] d₁ d' :=
            ⟨hw.ok, hw.touch, hw.size,
            fun k h1 h2 => absurd h1 (by simp at h2; omega), fun k hk =>
              absurd hk (Nat.not_lt_zero k),
            fun m hm h0 _ => hw.kept m hm h0 (by rw [List.length_nil]; omega)⟩
          exact (hgot.wrote h pos.toNat).append hrest
        · intro k h1 h2
          by_cases hk : k < pos.toNat + c.toNat
          · exact hw.touch.filled hchunk k h1 hk
          · exact hfill k (by omega) h2
      · intro e d' hno
        refine hno.earlier ?_ (blocksTo_le hlt (by omega)) hgot.touch fun S hS hroom => ?_
        · rw [hnext]
          exact Nat.div_le_div_right (Nat.le_add_right _ _)
        · exact hgot.room hS le_rfl hhi hn hroom
    · rw [if_neg hlt]
      rw [BitVec.lt_def] at hlt
      exact hdone pos buf d h (by omega)

end

/-! ## §3. `file_write` and `file_read`. -/

/-- A store to `f_size`. -/
theorem FileOk.store_size (h : FileOk d f) (w : Word) :
    FileOk (putWord d f.blk f.fSize w) f ∧ Touch f d (putWord d f.blk f.fSize w) ∧
      ∀ s : BlockSlot, s.Of f → slotVal (putWord d f.blk f.fSize w) s = slotVal d s := by
  have hrec : ∀ i, i ≠ f.fSize → putWord d f.blk f.fSize w f.blk i = d f.blk i :=
    fun i hi => putWord_of_ne _ _ (Or.inr hi)
  have hslot : ∀ s : BlockSlot, s.Of f → slotVal (putWord d f.blk f.fSize w) s = slotVal d s := by
    intro s hs
    obtain rfl : s.file = f := hs.mem
    exact slotVal_congr hs (fun a _ _ => hrec _ (by unfold FileP.fSize; omega)) fun hz j _ =>
      putWord_of_ne _ _ (Or.inl (h.apart _ (indirect_of s.file) hz))
  have hbits : ∀ c, Reserved d (bitmapBlk c) →
    (inUse (putWord d f.blk f.fSize w) c ↔ inUse d c) := by
    intro c hc
    apply inUse_congr
    funext i
    exact putWord_of_ne _ _ (Or.inl fun he => h.home (he ▸ ⟨Nat.le_add_right 2 _, hc⟩))
  have hnb : putWord d f.blk f.fSize w 1 1 = d 1 1 :=
    putWord_of_ne _ _ (Or.inr (by unfold FileP.fSize; omega))
  refine ⟨h.of_same hnb (fun c hc hu => (hbits c (reserved_bitmapBlk hc)).mpr hu) hslot,
    ⟨hnb, fun s hs _ => hslot s hs, ?_, fun c hc _ => hbits c hc⟩, hslot⟩
  intro p i hrecord _ _
  refine putWord_of_ne _ _ ?_
  by_contra hc
  push Not at hc
  refine hrecord ⟨hc.1, hc.2.ge, ?_⟩
  rw [hc.2]
  unfold FileP.fSize FileP.fIndirect
  omega

/-- `f` after a write of the bytes `xs` to `a`, with `f_size` set to `size`. -/
structure FileWritten (f : FileP) (a : Nat) (xs : List Byte) (size : Nat) (d d' : Disk) : Prop where
  ok : FileOk d' f
  touch : Touch f d d'
  size : fileSize d' f = size
  filled : Filled d' f a (a + xs.length)
  bytes : ∀ k (h : k < xs.length), fileByte d' f (a + k) = xs[k]
  kept : ∀ m, m / BLKSIZE < NDIRECT + NINDIRECT → slotVal d (fileSlot f (m / BLKSIZE)) ≠ 0#32 →
    (m < a ∨ a + xs.length ≤ m) → fileByte d' f m = fileByte d f m

/-- **`file_write`** from a non-negative offset, up to the end of the `int`s. -/
theorem fileWrite_wrote (h : FileOk d f) {buf : List Byte}
    (hsum : offset.toNat + buf.length < 2 ^ 31) :
    wp (fileWrite f buf offset)
      (fun r d' => ∃ xs ys, buf = xs ++ ys ∧ FileWritten f offset.toNat xs
          (max (fileSize d f) (offset.toNat + buf.length)) d d' ∧
        ((r = BitVec.ofNat 32 buf.length ∧ ys = []) ∨
          (r = -E_INVAL ∧ MAXFILESIZE < offset.toNat + buf.length)))
      (fun _ d' => NoRoom f (offset.toNat / BLKSIZE)
        (blocksTo offset.toNat (offset.toNat + buf.length)) d d') d := by
  have hlen : (BitVec.ofNat 32 buf.length).toNat = buf.length := toNat_ofNat_lt (by omega)
  have hstop : (offset + BitVec.ofNat 32 buf.length).toNat = offset.toNat + buf.length := by
    rw [BitVec.toNat_add, hlen]
    omega
  -- the loop, from the disk with the size set
  have hloop : ∀ d₁ : Disk, FileOk d₁ f → Touch f d d₁ →
      (∀ s : BlockSlot, s.Of f → slotVal d₁ s = slotVal d s) →
      (∀ p, p ≠ f.blk → d₁ p = d p) →
      fileSize d₁ f = max (fileSize d f) (offset.toNat + buf.length) →
      wp (fileWriteLoop f (offset + BitVec.ofNat 32 buf.length) (BitVec.ofNat 32 buf.length).toNat
        offset buf >>= writeEnd (BitVec.ofNat 32 buf.length))
      (fun r d' => ∃ xs ys, buf = xs ++ ys ∧ FileWritten f offset.toNat xs
          (max (fileSize d f) (offset.toNat + buf.length)) d d' ∧
        ((r = BitVec.ofNat 32 buf.length ∧ ys = []) ∨
          (r = -E_INVAL ∧ MAXFILESIZE < offset.toNat + buf.length)))
      (fun _ d' => NoRoom f (offset.toNat / BLKSIZE)
        (blocksTo offset.toNat (offset.toNat + buf.length)) d d') d₁ := by
    intro d₁ h₁ ht hslot hdata hsz
    refine wp_seq (wp_mono (fileWriteLoop_wrote _ offset buf d₁ h₁ (.inl (by omega)) hstop.symm
      hlen.ge) (fun _ _ h => h) ?_) ?_
    · intro e d' hno
      rw [hstop] at hno
      exact hno.earlier le_rfl le_rfl ht fun S hS hr => hr.of_data hS.own ht hslot
    · rintro r d' ⟨xs, ys, hbuf, hw, hr⟩
      have hwritten : FileWritten f offset.toNat xs
          (max (fileSize d f) (offset.toNat + buf.length)) d d' := by
        refine ⟨hw.ok, ht.trans hw.touch, ?_, hw.filled, hw.bytes, fun m hm h0 hout => ?_⟩
        · rw [← hsz]
          unfold fileSize
          rw [hw.size]
        · have hs := hslot _ (fileSlot_of f hm)
          rw [hw.kept m hm (by rw [hs]; exact h0) hout]
          unfold fileByte
          rw [hs]
          exact byteAt_block (Nat.mod_lt _ (by decide)) (hdata _ (h.apart _ (fileSlot_of f hm) h0))
      rw [hstop] at hr
      rcases hr with ⟨rfl, hys⟩ | ⟨rfl, hmax⟩
      · exact ⟨xs, ys, hbuf, hwritten, Or.inl ⟨rfl, hys⟩⟩
      · exact ⟨xs, ys, hbuf, hwritten, Or.inr ⟨rfl, hmax⟩⟩
  refine wp_bind_ok (load_ok _ _ d) ?_
  by_cases hgrow : d f.blk f.fSize < offset + BitVec.ofNat 32 buf.length
  · rw [if_pos hgrow]
    rw [BitVec.lt_def, hstop] at hgrow
    have hslt : ¬ (offset + BitVec.ofNat 32 buf.length).slt (d f.blk f.fSize) = true := by
      rw [BitVec.slt_iff_toInt_lt, BitVec.toInt_eq_toNat_of_lt (by omega),
        BitVec.toInt_eq_toNat_of_lt (by omega)]
      omega
    refine wp_bind_ok (fileSetSize_larger hslt) ?_
    obtain ⟨h₁, ht, hslot⟩ := h.store_size (offset + BitVec.ofNat 32 buf.length)
    refine hloop _ h₁ ht hslot (fun p hp => ?_) ?_
    · funext i
      exact putWord_of_ne _ _ (Or.inl hp)
    · unfold fileSize
      rw [putWord_same, hstop]
      omega
  · rw [if_neg hgrow]
    rw [BitVec.lt_def, hstop] at hgrow
    refine hloop d h (Touch.refl f d) (fun _ _ => rfl) (fun _ _ => rfl) ?_
    unfold fileSize
    omega

/-- **`file_read`** from a non-negative offset. -/
theorem fileRead_read (h : FileOk d f) (hsize : fileSize d f ≤ MAXFILESIZE)
    (hoff : offset.toNat < 2 ^ 31) (count : Word) :
    wp (fileRead f count offset)
      (fun r d' => r = (BitVec.ofNat 32 (min count.toNat (fileSize d f - offset.toNat)),
          fileBytes d' f offset.toNat (min count.toNat (fileSize d f - offset.toNat))) ∧
        Wrote f offset.toNat [] d d' ∧ Filled d' f offset.toNat
          (offset.toNat + min count.toNat (fileSize d f - offset.toNat)))
      (fun _ d' => NoRoom f (offset.toNat / BLKSIZE) (blocksTo offset.toNat
        (offset.toNat + min count.toNat (fileSize d f - offset.toNat))) d d') d := by
  have hmax : fileSize d f < 2 ^ 31 := by
    unfold MAXFILESIZE NDIRECT NINDIRECT BLKSIZE at hsize
    omega
  refine wp_bind_ok (load_ok _ _ d) ?_
  by_cases hle : (d f.blk f.fSize).sle offset = true
  · rw [if_pos hle]
    have hle' : fileSize d f ≤ offset.toNat :=
      (sle_iff (show fileSize d f < _ from hmax) hoff).mp hle
    rw [show min count.toNat (fileSize d f - offset.toNat) = 0 by omega]
    exact ⟨by simp [fileBytes], .refl h _, fun k h1 h2 => absurd h1 (by omega)⟩
  · rw [if_neg hle]
    have hlt : offset.toNat < fileSize d f := by
      rw [sle_iff (show fileSize d f < _ from hmax) hoff] at hle
      exact Nat.not_le.mp hle
    have hsub : (d f.blk f.fSize - offset).toNat = fileSize d f - offset.toNat :=
      BitVec.toNat_sub_of_le (BitVec.le_def.mpr hlt.le)
    have hc : (umin count (d f.blk f.fSize - offset)).toNat =
        min count.toNat (fileSize d f - offset.toNat) := by
      rw [umin_toNat, hsub]
    generalize umin count (d f.blk f.fSize - offset) = c at hc ⊢
    rw [← hc]
    have hstop : (offset + c).toNat = offset.toNat + c.toNat := by
      rw [BitVec.toNat_add]
      omega
    refine wp_seq (wp_mono (fileReadLoop_read
      (show (offset + c).toNat ≤ MAXFILESIZE by omega) c.toNat offset [] d h
      (by omega) (by omega)) (fun _ _ h => h) ?_) ?_
    · intro e d' hno
      rw [hstop] at hno
      exact hno
    · rintro r d' ⟨rfl, hw, hfill⟩
      rw [hstop] at hfill
      refine ⟨?_, hw, hfill⟩
      rw [List.nil_append, hstop, Nat.add_sub_cancel_left, BitVec.ofNat_toNat, BitVec.setWidth_eq]

/-! ## §4. Files among other files. -/

/-- A data block of a regular file holds no record. -/
theorem Consistent.regular_apart (h : Consistent d) {g : FileP} (hf : f ∈ allFiles d)
    (hg : g ∈ allFiles d) (hreg : fileType d g ≠ FTYPE_DIR) (hn : n < NDIRECT + NINDIRECT)
    (h0 : slotVal d (fileSlot g n) ≠ 0#32) : (slotVal d (fileSlot g n)).toNat ≠ f.blk := by
  intro he
  have hin := fileSlot_in hg hn
  rcases h.blk_cases hf with rfl | ⟨-, g', m, k, hg', hdir, hm, h0', hblk, -⟩
  · exact h.slot_free _ hin h0 (he ▸ reserved_one)
  · have := h.slot_inj _ _ hin (fileSlot_in hg' hm) h0 (BitVec.eq_of_toNat_eq (he.trans hblk))
    exact hreg ((fileSlot_inj this).1 ▸ hdir)

/-- **Another file keeps its bytes**, those of `f`'s record apart if it is the
directory that holds `f`. -/
theorem Touch.other_byte (ht : Touch f d d') (h : Consistent d) (h' : FsInv (allFiles d) ∅ d')
    (hf : f ∈ allFiles d) {g : FileP} (hg : g ∈ allFiles d) (hne : g ≠ f)
    (hslot : ∀ s : BlockSlot, s.In (allFiles d) → s.file ≠ f → slotVal d' s = slotVal d s) {k : Nat}
    (hk : k / BLKSIZE < NDIRECT + NINDIRECT) (h0 : slotVal d (fileSlot g (k / BLKSIZE)) ≠ 0#32)
    (hout : ¬ InRecord f (slotVal d (fileSlot g (k / BLKSIZE))).toNat (k % BLKSIZE / 4)) :
    fileByte d' g k = fileByte d g k := by
  have hin := fileSlot_in hg hk
  have hs := hslot _ hin (by rw [fileSlot_file]; exact hne)
  have hword := ht.words _ _ hout (fun hb => h.slot_free _ hin h0 hb.2) fun s hs' h1 he => ?_
  · unfold fileByte byteAt
    rw [hs]
    have hmod : k % BLKSIZE < BLKSIZE := Nat.mod_lt _ (by decide)
    generalize (slotVal d (fileSlot g (k / BLKSIZE))).toNat = p at hword ⊢
    rw [show (p * BLKSIZE + k % BLKSIZE) / BLKSIZE = p by unfold BLKSIZE at hmod ⊢; omega,
      show (p * BLKSIZE + k % BLKSIZE) % BLKSIZE / 4 = k % BLKSIZE / 4 by
        unfold BLKSIZE at hmod ⊢; omega, hword]
  · -- a block of `f` is not a block of `g`
    have := h'.slot_inj _ _ (hs'.mono hf) hin h1 (by rw [hs]; exact BitVec.eq_of_toNat_eq he)
    have hfile := congrArg BlockSlot.file this
    rw [fileSlot_file] at hfile
    cases s with
    | direct x i => exact hne (hfile.symm.trans hs'.1)
    | indirect x => exact hne (hfile.symm.trans hs')
    | entry x j => exact hne (hfile.symm.trans hs'.1)

/-- A file whose blocks are there needs no room to be read. -/
theorem Filled.hasRoom (hfill : Filled d f a b) :
    HasRoom d (slotsFor f (a / BLKSIZE) (blocksTo a b)) := by
  have hempty : emptySlots d (slotsFor f (a / BLKSIZE) (blocksTo a b)) = ∅ := by
    unfold emptySlots
    rw [Finset.filter_eq_empty_iff]
    -- every block of the range holds a byte of it
    have hslot : ∀ m, a / BLKSIZE ≤ m → m < blocksTo a b → slotVal d (fileSlot f m) ≠ 0#32 := by
      intro m h1 h2
      unfold blocksTo at h2
      split at h2
      · have := hfill (max a (m * BLKSIZE)) (by omega) (by unfold BLKSIZE at h1 ⊢; omega)
        rw [show max a (m * BLKSIZE) / BLKSIZE = m by unfold BLKSIZE at h1 ⊢; omega] at this
        exact this.2
      · unfold BLKSIZE at h1
        omega
    intro s hs
    rcases Finset.mem_union.mp hs with hs | hs
    · obtain ⟨m, hm, rfl⟩ := Finset.mem_image.mp hs
      have := Finset.mem_Ico.mp hm
      exact hslot m this.1 (by omega)
    · split at hs
      · rename_i hc
        rw [Finset.mem_singleton.mp hs, slotVal_indirect]
        intro hz
        have hlast := hslot (blocksTo a b - 1) (by omega) (by omega)
        unfold fileSlot at hlast
        rw [if_neg (by omega)] at hlast
        exact hlast (if_pos hz)
      · exact absurd hs (Finset.notMem_empty _)
  unfold HasRoom
  rw [hempty, Finset.card_empty]
  exact Nat.zero_le _

theorem NoRoom.false {lo hi : Nat} (h : NoRoom f lo hi d d')
    (hroom : HasRoom d (slotsFor f lo hi)) :
    False := h.2 _ (slotsFor_covers f lo hi) hroom

/-- **`file_read`** with room for the holes. -/
theorem fileRead_room (h : FileOk d f) (hsize : fileSize d f ≤ MAXFILESIZE)
    (hoff : offset.toNat < 2 ^ 31) (count : Word)
    (hroom : HasRoom d (slotsFor f (offset.toNat / BLKSIZE) (blocksTo offset.toNat
      (offset.toNat + min count.toNat (fileSize d f - offset.toNat))))) :
    ∃ d', fileRead f count offset d =
        .ok (BitVec.ofNat 32 (min count.toNat (fileSize d f - offset.toNat)),
          fileBytes d' f offset.toNat (min count.toNat (fileSize d f - offset.toNat))) d' ∧
      Wrote f offset.toNat [] d d' := by
  obtain ⟨r, d', hrun, rfl, hw, -⟩ := exists_ok_of_wp (wp_mono (fileRead_read h hsize hoff count)
    (fun _ _ h => h) (fun _ _ h => h.false hroom))
  exact ⟨d', hrun, hw⟩

/-- **A regular file behaves as an array of bytes.**  With enough free blocks,
`file_write` within the largest file size writes all of the buffer, sets `f_size`,
and reading it back gives the buffer; the other bytes that the file had stay, and so
do the sizes and bytes of all other files, the record of `f` in its directory apart.
`file_read` returns the bytes there are from the offset on, up to `count`. -/
theorem file_is_byte_array (h : Consistent d) (hf : f ∈ allFiles d)
    (hreg : fileType d f ≠ FTYPE_DIR) {offset : Word} (hoff : 0 ≤ offset.toInt) :
    (∀ buf : List Byte, offset.toNat + buf.length ≤ MAXFILESIZE →
      HasRoom d (slotsFor f (offset.toNat / BLKSIZE)
        (blocksTo offset.toNat (offset.toNat + buf.length))) →
      ∃ d', fileWrite f buf offset d = .ok (BitVec.ofNat 32 buf.length) d' ∧
        fileSize d' f = max (fileSize d f) (offset.toNat + buf.length) ∧
        (∃ d'', fileRead f (BitVec.ofNat 32 buf.length) offset d' =
          .ok (BitVec.ofNat 32 buf.length, buf) d'') ∧
        (∀ k < fileSize d f, slotVal d (fileSlot f (k / BLKSIZE)) ≠ 0#32 →
          (k < offset.toNat ∨ offset.toNat + buf.length ≤ k) → fileByte d' f k = fileByte d f k) ∧
        ∀ g ∈ allFiles d, g ≠ f → fileSize d' g = fileSize d g ∧ ∀ k < fileSize d g,
          slotVal d' (fileSlot g (k / BLKSIZE)) = slotVal d (fileSlot g (k / BLKSIZE)) ∧
          (slotVal d (fileSlot g (k / BLKSIZE)) ≠ 0#32 →
            (fileType d g = FTYPE_DIR →
              ¬ InRecord f (slotVal d (fileSlot g (k / BLKSIZE))).toNat (k % BLKSIZE / 4)) →
            fileByte d' g k = fileByte d g k)) ∧
    ∀ count : Word, HasRoom d (slotsFor f (offset.toNat / BLKSIZE) (blocksTo offset.toNat
        (offset.toNat + min count.toNat (fileSize d f - offset.toNat)))) →
      ∃ d', fileRead f count offset d =
          .ok (BitVec.ofNat 32 (min count.toNat (fileSize d f - offset.toNat)),
            fileBytes d' f offset.toNat (min count.toNat (fileSize d f - offset.toNat))) d' ∧
        ∀ k < fileSize d f, slotVal d (fileSlot f (k / BLKSIZE)) ≠ 0#32 →
          fileByte d' f k = fileByte d f k := by
  have hok := h.fileOk hf
  obtain ⟨hoff', -⟩ := toNat_of_nonneg hoff
  have hblock : ∀ g ∈ allFiles d, ∀ k < fileSize d g, k / BLKSIZE < NDIRECT + NINDIRECT := by
    intro g hg k hk
    have := h.size_le g hg
    unfold MAXFILESIZE BLKSIZE at this
    unfold BLKSIZE
    omega
  constructor
  · intro buf hmax hroom
    have hsum : offset.toNat + buf.length < 2 ^ 31 := by
      unfold MAXFILESIZE NDIRECT NINDIRECT BLKSIZE at hmax
      omega
    have hwp := wp_and (fileWrite_spec h hf hreg hmax) (fileWrite_wrote hok hsum)
    obtain ⟨r, d', hrun, ⟨hinv, hres⟩, xs, ys, hbuf, hw, hr⟩ := exists_ok_of_wp
      (wp_mono hwp (fun _ _ h => h) (fun _ _ h => h.2.false hroom))
    obtain ⟨rfl, rfl⟩ : r = BitVec.ofNat 32 buf.length ∧ ys = [] := by
      rcases hr with hr | ⟨-, hbig⟩
      · exact hr
      · exact absurd hmax (Nat.not_le.mpr hbig)
    rw [List.append_nil] at hbuf
    subst hbuf
    refine ⟨d', hrun, hw.size, ?_, ?_, ?_⟩
    · -- reading it back
      have hlen : (BitVec.ofNat 32 buf.length).toNat = buf.length := sizeWord_toNat (by omega)
      have hcount : min (BitVec.ofNat 32 buf.length).toNat (fileSize d' f - offset.toNat) =
          buf.length := by
        rw [hw.size, hlen]
        omega
      obtain ⟨d'', hread, hkeep⟩ := fileRead_room hw.ok
        (by rw [hw.size]; exact max_le (h.size_le f hf) hmax) hoff' (BitVec.ofNat 32 buf.length)
        (by rw [hcount]; exact hw.filled.hasRoom)
      rw [hcount] at hread
      refine ⟨d'', ?_⟩
      rw [hread]
      congr 2
      refine fileBytes_eq fun k hk => ?_
      obtain ⟨hkn, hk0⟩ := hw.filled (offset.toNat + k) (by omega) (by omega)
      rw [hkeep.kept _ hkn hk0 (by rw [List.length_nil]; omega), hw.bytes k hk]
    · exact fun k hk h0 hout => hw.kept k (hblock f hf k hk) h0 hout
    · intro g hg hne
      refine ⟨hres.size g hg hne, fun k hk => ?_⟩
      have hkb := hblock g hg k hk
      refine ⟨hres.other _ (fileSlot_in hg hkb) (by rw [fileSlot_file]; exact hne), fun h0 hdir =>
        ?_⟩
      refine hw.touch.other_byte h hinv hf hg hne hres.other hkb h0 fun hrec => ?_
      by_cases ht : fileType d g = FTYPE_DIR
      · exact hdir ht hrec
      · exact h.regular_apart hf hg ht hkb h0 hrec.1
  · intro count hroom
    obtain ⟨d', hread, hw⟩ := fileRead_room hok (h.size_le f hf) hoff' count hroom
    exact ⟨d', hread, fun k hk h0 => hw.kept k (hblock f hf k hk) h0
      (by rw [List.length_nil]; omega)⟩

theorem file_is_byte_array_small : ∃ d' d'', fileWrite fileA [7#8, 8#8] 4095#32 smallDisk = .ok
    2#32 d' ∧
    fileRead fileA 2#32 4095#32 d' = .ok (2#32, [7#8, 8#8]) d'' := by
  obtain ⟨d', hrun, -, ⟨d'', hread⟩, -⟩ := (file_is_byte_array (f := fileA)
    smallDisk_sound.inv (smallDisk_isFile rfl rfl (by decide)) (by decide)
    (show 0 ≤ (4095#32 : Word).toInt by decide)).1 [7#8, 8#8]
    (by decide) (by unfold HasRoom; decide +kernel)
  exact ⟨d', d'', hrun, hread⟩

/-- **The directory of the file is a file, too**, and the record of the file is among
its bytes: byte 384 of the root is the size of `fileA`. -/
theorem write_changes_directory : ∃ d', fileWrite fileA [7#8] 0#32 smallDisk = .ok 1#32 d' ∧
    sRoot ∈ allFiles smallDisk ∧ sRoot ≠ fileA ∧ 384 < fileSize smallDisk sRoot ∧
    fileByte smallDisk sRoot 384 = 0#8 ∧ fileByte d' sRoot 384 = 1#8 := by
  refine ⟨_, rfl, .root, by decide, by decide, by decide, ?_⟩
  decide +kernel

/-! ## §5. Access stays inside the file. -/

/-- A size that is negative by two blocks or more frees nothing. -/
theorem fileTruncateBlocks_far {w : Word} (hsize : fileSize d f ≤ MAXFILESIZE)
    (hneg : 2 ^ 31 ≤ w.toNat) (hw : w.toNat < 2 ^ 32 - 8190) :
    fileTruncateBlocks f w d = .ok () d := by
  have hadd : (w + 4095#32).toNat = w.toNat + 4095 := by
    show (w.toNat + 4095) % 2 ^ 32 = _
    omega
  have hnew : NDIRECT + NINDIRECT ≤ (sizeBlocks w).toNat :=
    sdiv_far (by rw [hadd]; unfold MAXFILESIZE NDIRECT NINDIRECT BLKSIZE; omega) (by omega)
  have hold := sizeBlocks_toNat hsize
  unfold fileSize MAXFILESIZE BLKSIZE at hsize
  unfold fileTruncateBlocks
  rw [bind_ok (load_ok _ _ d), show (sizeBlocks (d f.blk f.fSize)).toNat - (sizeBlocks w).toNat =
    0 by omega]
  show (if (sizeBlocks w).toNat ≤ NDIRECT then _ else pure () : FsM Unit) d = _
  rw [if_neg (by unfold NINDIRECT at hnew; omega)]
  rfl

theorem fileFreeBlock_none (h0 : ∀ s : BlockSlot, s.Of f → slotVal d s = 0#32) (n : Word) :
    ∃ r, fileFreeBlock f n d = .ok r d := by
  unfold fileFreeBlock fileBlockWalk
  by_cases h1 : n.toNat < NDIRECT
  · have hz : d f.blk (f.fDirect n.toNat) = 0#32 := h0 (.direct f n.toNat) ⟨rfl, h1⟩
    rw [if_pos h1, bind_ok (show (pure _ : FsM _) d = .ok _ d from rfl)]
    dsimp only
    rw [bind_ok (load_ok _ _ d), if_neg (by rw [hz]; exact fun h => h rfl)]
    exact ⟨_, rfl⟩
  · rw [if_neg h1]
    by_cases h2 : n.toNat < NDIRECT + NINDIRECT
    · have hz : d f.blk f.fIndirect = 0#32 := h0 (.indirect f) rfl
      rw [if_pos h2, bind_assoc, bind_ok (load_ok _ _ d), hz]
      exact ⟨_, rfl⟩
    · rw [if_neg h2]
      exact ⟨_, rfl⟩

theorem fileTruncateBlocks_none (h0 : ∀ s : BlockSlot, s.Of f → slotVal d s = 0#32) (w : Word) :
    fileTruncateBlocks f w d = .ok () d := by
  have hind : d f.blk f.fIndirect = 0#32 := h0 (.indirect f) rfl
  have hloop : ∀ lo n, wp (forUp (fun bno => do let _ ← fileFreeBlock f (BitVec.ofNat 32 bno)) lo n)
      (fun _ t => t = d) (fun _ _ => False) d := fun lo n =>
    wp_forUp (I := fun _ t => t = d) n lo d rfl fun i t _ _ ht => by
      obtain ⟨r, hr⟩ := fileFreeBlock_none h0 (BitVec.ofNat 32 i)
      rw [ht]
      exact wp_bind_ok hr rfl
  unfold fileTruncateBlocks
  rw [bind_ok (load_ok _ _ d)]
  obtain ⟨_, t, hrun, rfl⟩ := exists_ok_of_wp (hloop (sizeBlocks w).toNat
    ((sizeBlocks (d f.blk f.fSize)).toNat - (sizeBlocks w).toNat))
  rw [bind_ok hrun]
  split
  · rw [bind_ok (load_ok _ _ t), if_neg (by rw [hind]; exact fun h => h rfl)]
    rfl
  · rfl

/-- A size that is larger as an unsigned number is stored, and nothing is freed. -/
theorem fileSetSize_store {w : Word} (hsize : fileSize d f ≤ MAXFILESIZE)
    (hgrow : (d f.blk f.fSize).toNat < w.toNat)
    (hw : w.toNat < 2 ^ 32 - 8190 ∨ ∀ s : BlockSlot, s.Of f → slotVal d s = 0#32) :
    fileSetSize f w d = .ok 0#32 (putWord d f.blk f.fSize w) := by
  by_cases hslt : w.slt (d f.blk f.fSize) = true
  · have htrunc : fileTruncateBlocks f w d = .ok () d := by
      rcases hw with hw | h0
      · refine fileTruncateBlocks_far hsize ?_ hw
        by_contra hsmall
        rw [BitVec.slt_iff_toInt_lt, BitVec.toInt_eq_toNat_of_lt (by omega),
          BitVec.toInt_eq_toNat_of_lt (by omega)] at hslt
        omega
      · exact fileTruncateBlocks_none h0 w
    unfold fileSetSize
    rw [bind_ok (load_ok _ _ d), if_pos hslt, bind_ok htrunc]
    rfl
  · exact fileSetSize_larger hslt

/-- The end of the range, modulo 2^32, is not one that `file_set_size` takes for a size just
below 0; or the file has no blocks to lose, and no byte is written before its first one. -/
def WritesInside (d : Disk) (f : FileP) (offset count : Word) : Prop :=
  (offset + count).toNat < 2 ^ 32 - 8190 ∨
    (∀ s : BlockSlot, s.Of f → slotVal d s = 0#32) ∧
      (¬ offset < offset + count ∨ offset.toNat ≤ 2 ^ 32 - 4096)

theorem fileWrite_touch (h : FileOk d f) (hsize : fileSize d f ≤ MAXFILESIZE) {buf : List Byte}
    (hlen : buf.length < 2 ^ 32) (hin : WritesInside d f offset (BitVec.ofNat 32 buf.length)) :
    wp (fileWrite f buf offset) (fun _ d' => Touch f d d') (fun _ d' => Touch f d d') d := by
  have hcount : (BitVec.ofNat 32 buf.length).toNat = buf.length := toNat_ofNat_lt hlen
  have hadd := BitVec.toNat_add offset (BitVec.ofNat 32 buf.length)
  rw [hcount] at hadd
  unfold WritesInside at hin
  generalize hstop : offset + BitVec.ofNat 32 buf.length = stop at hin hadd
  have hend : ∀ (r : Option Word) (d₁ : Disk),
    wp (writeEnd (m := FsM) (BitVec.ofNat 32 buf.length) r)
      (fun _ d' => d' = d₁) (fun _ _ => False) d₁ := by
    intro r d₁
    cases r <;> rfl
  have hloop : ∀ d₁ : Disk, FileOk d₁ f → wp (fileWriteLoop f stop buf.length offset buf >>=
      writeEnd (BitVec.ofNat 32 buf.length)) (fun _ d' => Touch f d₁ d') (fun _ d' =>
        Touch f d₁ d') d₁ := by
    intro d₁ h₁
    have hstep : wp (fileWriteLoop f stop buf.length offset buf) (fun _ d' => Touch f d₁ d')
        (fun _ d' => Touch f d₁ d') d₁ := by
      by_cases hlt : offset < stop
      · have hfar : offset.toNat ≤ 2 ^ 32 - 4096 := by
          rw [BitVec.lt_def] at hlt
          rcases hin with hin | ⟨-, hin⟩
          · omega
          · exact hin.resolve_left fun hno => hno hlt
        have hgo := hlt
        rw [BitVec.lt_def] at hlt
        by_cases hmax : offset.toNat ≤ MAXFILESIZE
        · refine wp_mono (fileWriteLoop_wrote _ offset buf d₁ h₁ (.inr hmax) ?_ le_rfl) ?_
            fun _ _ hno => hno.1
          · omega
          · rintro r d' ⟨xs, ys, -, hw, -⟩
            exact hw.touch
        · obtain ⟨k, hk⟩ := Nat.exists_eq_add_one.mpr (show 0 < buf.length by omega)
          rw [hk]
          unfold fileWriteLoop
          rw [if_pos hgo]
          exact wp_bind_ok (fileGetBlock_range (sdiv_far (by omega) hfar)) (.refl f d₁)
      · cases buf.length with
        | zero => exact Touch.refl f d₁
        | succ k =>
          unfold fileWriteLoop
          rw [if_neg hlt]
          exact Touch.refl f d₁
    exact wp_seq hstep fun r d₂ ht => wp_mono (hend r d₂) (fun _ _ he => he ▸ ht) fun _ _ hno =>
      hno.elim
  unfold fileWrite
  refine wp_bind_ok (load_ok _ _ d) ?_
  rw [hstop, hcount]
  split
  next hgrow =>
    rw [BitVec.lt_def] at hgrow
    obtain ⟨h₁, ht, -⟩ := h.store_size stop
    refine wp_bind_ok (fileSetSize_store hsize hgrow (hin.imp_right And.left)) ?_
    exact wp_mono (hloop _ h₁) (fun _ _ ht' => ht.trans ht') fun _ _ ht' => ht.trans ht'
  next => exact hloop d h

/-- From 0 on, or nothing, or so far before 0 that there is no block, and not up to 0. -/
def ReadsInside (offset count : Word) : Prop :=
  0 ≤ offset.toInt ∨ count = 0#32 ∨
    offset.toInt ≤ -BLKSIZE ∧ offset.toNat + count.toNat < 2 ^ 32

/-- The call failed and copied nothing; or it returned the number of the bytes it copied,
and they are the file's, in its blocks and below `f_size`. -/
def CopiedInside (f : FileP) (offset count : Word) (d : Disk) (r : Word × List Byte) (d' : Disk) :
    Prop :=
  Touch f d d' ∧ (r = (-E_INVAL, []) ∨ ∃ n ≤ count.toNat, n ≤ fileSize d f - offset.toNat ∧
    r = (BitVec.ofNat 32 n, fileBytes d' f offset.toNat n) ∧
    Filled d' f offset.toNat (offset.toNat + n))

theorem fileReadLoop_extends (stop : Word) (n : Nat) : ∀ (pos : Word) (buf : List Byte) (d : Disk),
    wp (fileReadLoop f stop n pos buf) (fun r _ => buf.length ≤ r.2.length) (fun _ _ => True) d :=
      by
  induction n with
  | zero => exact fun pos buf d => Nat.le_refl _
  | succ n ih =>
    intro pos buf d
    unfold fileReadLoop
    split
    · refine wp_seq (wp_trivial _ _) fun r d₁ _ => ?_
      cases r with
      | error r => exact Nat.le_refl _
      | ok b =>
        dsimp only
        generalize (chunk stop pos).toNat = m
        rw [wp_bind]
        refine wp_of_ok (diskBytes_eq d₁ m _) (wp_mono (ih _ _ d₁) (fun r _ hr => ?_) fun _ _ h =>
          h)
        rw [List.length_append] at hr
        omega
    · exact Nat.le_refl _

/-- The block of a position less than a block before 0. -/
theorem sdiv_before {w : Word} (hw : 2 ^ 32 - 4096 < w.toNat) : w.sdiv 4096#32 = 0#32 := by
  have hmsb : w.msb = true := by
    rw [BitVec.msb_eq_decide, decide_eq_true_eq]
    omega
  rw [BitVec.sdiv_eq, hmsb, show (4096#32).msb = false from rfl]
  show -((-w) / 4096#32) = _
  rw [show -w / 4096#32 = 0#32 from BitVec.eq_of_toNat_eq (by
    rw [BitVec.toNat_udiv, BitVec.toNat_neg]
    show (2 ^ 32 - w.toNat) % 2 ^ 32 / 4096 = 0
    omega)]
  rfl

/-- Every pass moves a byte or more. -/
theorem chunk_pos {stop pos : Word} (hlt : pos < stop) : 0 < (chunk stop pos).toNat := by
  have hsub : 0 < (stop - pos).toNat := by
    rw [BitVec.lt_def] at hlt
    rw [BitVec.toNat_sub]
    have := stop.isLt
    omega
  have hrem : 0 < (4096#32 - pos.srem 4096#32).toNat := by
    refine Nat.pos_of_ne_zero fun hz => ?_
    have hint := BitVec.toInt_srem pos 4096#32
    have hlt := Int.tmod_lt_of_pos pos.toInt (show (0 : Int) < (4096#32 : Word).toInt by decide)
    generalize pos.srem 4096#32 = w at hz hint
    have hw : w = 4096#32 := by bv_omega
    rw [hw] at hint
    omega
  unfold chunk
  rw [umin_toNat]
  omega

/-- From just before position 0 the loop copies something: the bytes before block 0. -/
theorem fileReadLoop_before (h : FileOk d f) {stop pos : Word} (hpos : 2 ^ 32 - 4096 < pos.toNat)
    (hlt : pos < stop) (n : Nat) :
    wp (fileReadLoop f stop (n + 1) pos []) (fun r _ => 0 < r.2.length) (fun _ _ => True) d := by
  have hchunk := chunk_pos hlt
  unfold fileReadLoop
  rw [if_pos hlt, sdiv_before hpos]
  generalize (chunk stop pos).toNat = m at hchunk ⊢
  refine wp_seq (wp_mono (fileGetBlock_got h (show (0#32 : Word).toNat < _ by decide))
    (fun _ _ h => h) fun _ _ _ => trivial) ?_
  rintro _ d₁ ⟨b, rfl, -⟩
  dsimp only
  rw [wp_bind]
  refine wp_of_ok (diskBytes_eq d₁ m _)
    (wp_mono (fileReadLoop_extends _ _ _ _ _) (fun r _ hr => ?_) fun _ _ h => h)
  simp only [List.nil_append, List.length_map, List.length_range'] at hr
  omega

/-- **`file_read` from before the beginning.** -/
theorem fileRead_before (h : FileOk d f) (hsize : fileSize d f ≤ MAXFILESIZE)
    (hneg : 2 ^ 31 ≤ offset.toNat)
    (count : Word) :
    wp (fileRead f count offset)
      (fun r d' => CopiedInside f offset count d r d' ↔ ReadsInside offset count)
      (fun _ d' => ReadsInside offset count → Touch f d d') d := by
  have hint : offset.toInt = offset.toNat - 2 ^ 32 := by
    rw [BitVec.toInt_eq_toNat_cond, if_neg (by omega)]
    rfl
  unfold fileSize at hsize
  have hsize' : (d f.blk f.fSize).toNat < 2 ^ 30 := by
    unfold MAXFILESIZE NDIRECT NINDIRECT BLKSIZE at hsize
    omega
  have hlt := offset.isLt
  refine wp_bind_ok (load_ok _ _ d) ?_
  rw [if_neg (by
    rw [BitVec.sle_iff_toInt_le, hint, BitVec.toInt_eq_toNat_of_lt (by omega)]
    omega)]
  have hsub : (d f.blk f.fSize - offset).toNat = (d f.blk f.fSize).toNat + 2 ^ 32 -
    offset.toNat := by
    rw [BitVec.toNat_sub]
    omega
  have hmin := umin_toNat count (d f.blk f.fSize - offset)
  rw [hsub] at hmin
  generalize umin count (d f.blk f.fSize - offset) = c at hmin
  have hadd := BitVec.toNat_add offset c
  dsimp only
  by_cases h0 : count = 0#32
  · obtain rfl : c = 0#32 := BitVec.eq_of_toNat_eq (by rw [hmin, h0]; simp)
    exact ⟨fun _ => .inr (.inl h0), fun _ => ⟨.refl f d, .inr ⟨0, Nat.zero_le _, Nat.zero_le _, rfl,
      fun k h1 h2 => by omega⟩⟩⟩
  have hpos : 0 < count.toNat := Nat.pos_of_ne_zero fun hz => h0 (BitVec.eq_of_toNat_eq hz)
  obtain ⟨k, hk⟩ := Nat.exists_eq_add_one.mpr (show 0 < c.toNat by omega)
  by_cases hwrap : offset.toNat + count.toNat < 2 ^ 32
  · -- up to somewhere before 0
    have hgo : offset < offset + c := by
      rw [BitVec.lt_def]
      omega
    by_cases hfar : offset.toInt ≤ -BLKSIZE
    · have hrange : fileGetBlock f (offset.sdiv 4096#32) d = .ok (.error (-E_INVAL)) d :=
        fileGetBlock_range (sdiv_far (by unfold MAXFILESIZE NDIRECT NINDIRECT BLKSIZE; omega)
          (by unfold BLKSIZE at hfar; omega))
      rw [hk]
      unfold fileReadLoop
      rw [if_pos hgo]
      refine wp_bind_ok (bind_ok hrange) ?_
      exact ⟨fun _ => .inr (.inr ⟨hfar, hwrap⟩), fun _ => ⟨.refl f d, .inl rfl⟩⟩
    · have hno : ¬ ReadsInside offset count := by
        rintro (h1 | h1 | h1)
        · omega
        · exact h0 h1
        · exact hfar h1.1
      have hbytes := fileReadLoop_before h (by unfold BLKSIZE at hfar; omega) hgo k
      rw [hk]
      refine wp_seq (wp_mono hbytes (fun _ _ h => h) fun _ _ _ hin =>
        absurd hin hno) fun r d₁ hr => ?_
      have hout : ∀ w : Word, ¬ CopiedInside f offset count d (w, r.2) d₁ := by
        rintro w ⟨-, hnil | ⟨n, -, -, hres, hfill⟩⟩
        · rw [(Prod.mk.inj hnil).2] at hr
          exact absurd hr (Nat.lt_irrefl 0)
        · rw [(Prod.mk.inj hres).2, fileBytes_length] at hr
          have := (hfill offset.toNat le_rfl (by omega)).1
          unfold BLKSIZE NDIRECT NINDIRECT at this
          omega
      obtain ⟨_ | e, xs⟩ := r
      · exact ⟨fun hin => absurd hin (hout _), fun hin => absurd hin hno⟩
      · exact ⟨fun hin => absurd hin (hout _), fun hin => absurd hin hno⟩
  · -- up to 0 or beyond: the end of the range wraps, and no pass is made
    have hstay : ¬ offset < offset + c := by
      rw [BitVec.lt_def]
      omega
    have hno : ¬ ReadsInside offset count := by
      rintro (h1 | h1 | h1)
      · omega
      · exact h0 h1
      · exact hwrap h1.2
    rw [hk]
    unfold fileReadLoop
    rw [if_neg hstay]
    refine ⟨fun hcopied => absurd ?_ hno, fun hin => absurd hin hno⟩
    rcases hcopied.2 with hin | ⟨n, -, -, hres, -⟩
    · have hc := congrArg BitVec.toNat (Prod.mk.inj hin).1
      rw [show (-E_INVAL).toNat = 2 ^ 32 - 3 from rfl] at hc
      omega
    · obtain rfl : n = 0 := by
        have := congrArg List.length (Prod.mk.inj hres).2
        rw [fileBytes_length] at this
        exact this.symm
      have hc := congrArg BitVec.toNat (Prod.mk.inj hres).1
      exact absurd (hc.symm.trans hk) (by simp)

/-- **Access stays inside the file.**  `file_read` returns as many bytes as it copies, all of
them the file's, for just the offsets and counts of `ReadsInside`; and `file_write` touches
only what is the file's for those of `WritesInside`, also where the disk is full and it
stops. -/
theorem file_access_inside (h : Consistent d) (hf : f ∈ allFiles d) (offset : Word) :
    (∀ count : Word, wp (fileRead f count offset)
      (fun r d' => CopiedInside f offset count d r d' ↔ ReadsInside offset count)
      (fun _ d' => ReadsInside offset count → Touch f d d') d) ∧
    ∀ buf : List Byte, buf.length < 2 ^ 32 → WritesInside d f offset (BitVec.ofNat 32 buf.length) →
      wp (fileWrite f buf offset) (fun _ d' => Touch f d d') (fun _ d' => Touch f d d') d := by
  have hok := h.fileOk hf
  refine ⟨fun count => ?_, fun buf hlen hin => fileWrite_touch hok (h.size_le f hf) hlen hin⟩
  by_cases hoff : offset.toNat < 2 ^ 31
  · have hin : 0 ≤ offset.toInt := by
      rw [BitVec.toInt_eq_toNat_of_lt (by omega)]
      omega
    refine wp_mono (fileRead_read hok (h.size_le f hf) hoff count) ?_ (fun _ _ hno _ => hno.1)
    rintro r d' ⟨rfl, hw, hfill⟩
    exact ⟨fun _ => .inl hin, fun _ =>
      ⟨hw.touch, .inr ⟨_, Nat.min_le_left _ _, Nat.min_le_right _ _,
      rfl, hfill⟩⟩⟩
  · exact fileRead_before hok (h.size_le f hf) (Nat.not_lt.mp hoff) count

theorem file_access_inside_small : ∃ d', fileWrite fileA [7#8] 0#32 smallDisk = .ok 1#32 d' ∧
    Touch fileA smallDisk d' ∧
    CopiedInside fileA (-5000#32) 10#32 smallDisk (-E_INVAL, []) smallDisk := by
  have hin := file_access_inside (f := fileA) smallDisk_sound.inv (smallDisk_isFile rfl rfl
    (by decide))
  exact ⟨_, rfl, (hin 0#32).2 [7#8] (by decide) (.inl (by decide)),
    (wp_ok ((hin (-5000#32)).1 10#32) rfl).mpr (.inr (.inr (by decide)))⟩

/-- **Before the beginning.**  A write of four bytes to offset -8 of an empty file goes
into the block before the file's first one: here the root directory's, in which
`fileA` has only its record. -/
theorem file_access_outside : ∃ d', fileWrite fileA [1#8, 2#8, 3#8, 4#8] (-8#32) smallDisk = .ok
    4#32 d' ∧
    smallDisk 3 1022 = 0#32 ∧ d' 3 1022 = 0x04030201#32 ∧ ¬ InRecord fileA 3 1022 ∧
    (∀ i < NDIRECT, slotVal d' (.direct fileA i) = if i = 0 then 4#32 else 0#32) ∧
    indirectOf d' fileA = 0#32 := by
  refine ⟨_, rfl, by decide, by decide +kernel, ?_, ?_, by decide +kernel⟩
  · rintro ⟨-, -, h⟩
    exact absurd h (by decide)
  · intro i hi
    unfold NDIRECT at hi
    interval_cases i <;> decide +kernel

end Jos

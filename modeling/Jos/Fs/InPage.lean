/-
  Jos.Fs.InPage — **WRITE REQUESTS AND THE REQUEST PAGE** (`serve_write` in `fs/serv.c`).

  The handler hands a pointer into the page at `fsreq` to the file layer, with the
  client's `req_n`.  As long as the bytes fit, it does what `file_write` does with a
  buffer of its own.  The loops are compared pass by pass, for any disk and any offset.

    • `fileWriteReqLoop_eq` : the loop,
    • `serveWrite_eq`       : the handler.
-/
import Jos.Fs.DirSize

namespace Jos

open Exec

variable {d d' : Disk} {f : FileP} {s : Srv} {stop pos : Word}

/-! ## §1. One pass. -/

/-- A pass moves no more than what is left. -/
theorem chunk_le_rest (stop pos : Word) : (chunk stop pos).toNat ≤ (stop - pos).toNat := by
  unfold chunk umin
  split
  · assumption
  · exact le_rfl

theorem rest_after_chunk (hlt : pos < stop) :
    (stop - (pos + chunk stop pos)).toNat = (stop - pos).toNat - (chunk stop pos).toNat := by
  have hc := chunk_le_rest stop pos
  have hsub : (stop - pos).toNat = stop.toNat - pos.toNat :=
    BitVec.toNat_sub_of_le (BitVec.le_def.mpr (Nat.le_of_lt hlt))
  have hstop := stop.isLt
  have hlt' := BitVec.lt_def.mp hlt
  have hadd : (pos + chunk stop pos).toNat = pos.toNat + (chunk stop pos).toNat := by
    exact Nat.mod_eq_of_lt (by omega)
  rw [BitVec.toNat_sub_of_le (BitVec.le_def.mpr (by omega)), hadd, hsub]
  omega

/-! ## §2. `serve_write`. -/

/-- The first `c` of the `n` bytes from `k` on, and the others. -/
theorem range_split {m : Nat → Byte} {n c : Nat} (k : Nat) (hc : c ≤ n) :
    ((List.range' k n).map m).take c = (List.range' k c).map m ∧
      ((List.range' k n).map m).drop c = (List.range' (k + c) (n - c)).map m := by
  have hn : List.range' k n = List.range' k c ++ List.range' (k + c) (n - c) := by
    rw [List.range'_append_1, Nat.add_sub_cancel' hc]
  rw [hn, List.map_append]
  have hlen : ((List.range' k c).map m).length = c := by simp
  exact ⟨List.take_left' hlen, List.drop_left' hlen⟩

/-- **The loop of `file_write`, with its buffer in the page**: the bytes are the
page's, if they fit. -/
theorem fileWriteReqLoop_eq (f : FileP) (stop : Word) (n : Nat) :
    ∀ (pos : Word) (buf : Nat) (xs : List Byte) (s : Srv), s.reqPerm &&& PTE_U ≠ 0#32 →
      (pos < stop → buf + (stop - pos).toNat ≤ BLKSIZE ∧
        xs = (List.range' buf (stop - pos).toNat).map s.req) →
      wp (fileWriteLoop f stop n pos xs)
        (fun r d' => fileWriteReqLoop f stop n pos buf s = .ok r { s with disk := d' })
        (fun e d' => fileWriteReqLoop f stop n pos buf s = .error (.panic e) { s with disk := d' })
        s.disk := by
  induction n with
  | zero => exact fun pos buf xs s _ _ => rfl
  | succ n ih =>
    intro pos buf xs s hu hfit
    unfold fileWriteLoop fileWriteReqLoop
    by_cases hlt : pos < stop
    · obtain ⟨hfit, rfl⟩ := hfit hlt
      rw [if_pos hlt, if_pos hlt]
      cases hget : fileGetBlock f (pos.sdiv 4096#32) s.disk with
      | error e d₁ =>
        exact (wp_bind _ _ _ _ _).mpr (wp_of_error hget (bind_error (onDisk_error hget)))
      | ok r d₁ =>
        refine wp_bind_ok hget ?_
        rw [bind_ok (onDisk_ok hget)]
        cases r with
        | error r => rfl
        | ok b =>
          dsimp only
          have hc := chunk_le_rest stop pos
          have hrest := rest_after_chunk hlt
          generalize chunk stop pos = c at hc hrest ⊢
          obtain ⟨htake, hdrop⟩ := range_split (m := s.req) buf hc
          rw [← hrest] at hdrop
          rw [htake, hdrop, bind_ok (reqBytes_ok (s := { s with disk := d₁ }) hu _ buf (by omega))]
          cases hput : putDiskBytes (blkAddr b pos)
              ((List.range' buf c.toNat).map s.req) d₁ with
          | error e d₂ =>
            refine (wp_bind _ _ _ _ _).mpr (wp_of_error hput ?_)
            exact bind_error (onDisk_error (s := { s with disk := d₁ }) hput)
          | ok _ d₂ =>
            refine wp_bind_ok hput ?_
            rw [bind_ok (onDisk_ok (s := { s with disk := d₁ }) hput)]
            exact ih _ _ _ { s with disk := d₂ } hu fun _ => ⟨by omega, rfl⟩
    · rw [if_neg hlt, if_neg hlt]
      rfl

/-- **`file_write` out of the page.** -/
theorem fileWriteReq_eq (hu : s.reqPerm &&& PTE_U ≠ 0#32) {count offset : Word}
    (hfit : count.toNat ≤ BLKSIZE - 8) :
    wp (fileWrite f ((List.range' 8 count.toNat).map s.req) offset)
      (fun r d' => fileWriteReq f count offset s = .ok r { s with disk := d' })
      (fun e d' => fileWriteReq f count offset s = .error (.panic e) { s with disk := d' })
      s.disk := by
  have hlen : BitVec.ofNat 32 ((List.range' 8 count.toNat).map s.req).length = count := by
    rw [List.length_map, List.length_range', BitVec.ofNat_toNat, BitVec.setWidth_eq]
  have hsub : (offset + count - offset).toNat = count.toNat := by
    rw [BitVec.add_comm, BitVec.add_sub_cancel]
  -- the loop, once the size is right
  have hloop : ∀ d₁ : Disk,
      wp (fileWriteLoop f (offset + count) count.toNat offset
          ((List.range' 8 count.toNat).map s.req) >>= writeEnd count)
        (fun r d' => (fileWriteReqLoop f (offset + count) count.toNat offset 8 >>= writeEnd count)
          { s with disk := d₁ } = .ok r { s with disk := d' })
        (fun e d' => (fileWriteReqLoop f (offset + count) count.toNat offset 8 >>= writeEnd count)
          { s with disk := d₁ } = .error (.panic e) { s with disk := d' }) d₁ := by
    intro d₁
    refine wp_seq (wp_mono (fileWriteReqLoop_eq f (offset + count) count.toNat offset 8 _
      { s with disk := d₁ } hu fun _ => ⟨?_, by rw [hsub]⟩) (fun _ _ hrun => hrun)
      (fun e d' hrun => bind_error hrun)) ?_
    · unfold BLKSIZE at hfit ⊢
      omega
    · intro r d' hrun
      rw [bind_ok hrun]
      cases r with
      | none => rfl
      | some r => rfl
  unfold fileWrite fileWriteReq
  rw [hlen]
  refine wp_bind_ok (load_ok _ _ s.disk) ?_
  rw [bind_ok (onDisk_ok (load_ok _ _ s.disk))]
  split
  · cases hset : fileSetSize f (offset + count) s.disk with
    | error e d₁ =>
      exact (wp_bind _ _ _ _ _).mpr (wp_of_error hset (bind_error (onDisk_error hset)))
    | ok r d₁ =>
      refine wp_bind_ok hset ?_
      rw [bind_ok (onDisk_ok hset)]
      exact hloop d₁
  · exact hloop s.disk

/-- `serve_write`, once the file has been looked up. -/
theorem serveWrite_eq {i p : Nat} (hu : s.reqPerm &&& PTE_U ≠ 0#32)
    (ho : OpenOn s.tab i p f) (hid : openfileLookup s.tab (pageWord s.req 0) = .ok i) :
    serveWrite s = (do
      let r ← fileWriteReq f (pageWord s.req 4) (s.tab.fd p).fdOffset
      if isPos r then addOffset i r
      return r : SrvM Word) s := by
  unfold serveWrite
  rw [bind_ok (lookupReq_ok hu), hid]
  show (reqWord 4 >>= fun n => openFileOf i >>= fun g => getOffset i >>= fun off =>
    fileWriteReq g n off >>= fun r => _) s = _
  rw [bind_ok (reqWord_ok hu (by decide)),
    bind_ok (show openFileOf i s = .ok f s by rw [← ho.file]; rfl), bind_ok (getOffset_ok ho.page)]

/-- **`serve_write`** is `file_write` of bytes of the page. -/
theorem serveWrite_file {i p : Nat} (hu : s.reqPerm &&& PTE_U ≠ 0#32) (ho : OpenOn s.tab i p f)
    (hid : openfileLookup s.tab (pageWord s.req 0) = .ok i)
    (hfit : (pageWord s.req 4).toNat ≤ BLKSIZE - 8) :
    wp (fileWrite f ((List.range' 8 (pageWord s.req 4).toNat).map s.req) (s.tab.fd p).fdOffset)
      (fun r d' => serveWrite s = .ok r { s with disk := d', tab := s.tab.moved p r })
      (fun e d' => serveWrite s = .error (.panic e) { s with disk := d' }) s.disk := by
  rw [serveWrite_eq hu ho hid]
  refine wp_mono (fileWriteReq_eq hu hfit) ?_ ?_
  · intro r d' hrun
    rw [bind_ok hrun]
    exact moved_ok (s := { s with disk := d' }) ho.page r
  · intro e d' hrun
    exact bind_error hrun

end Jos

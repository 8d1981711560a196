/-
  Jos.Ulib.Loader — **TWO LOADERS, ONE PROGRAM** (`load_icode` in `kern/env.c`, `spawn` and
  `map_segment` in `lib/spawn.c`).

  The kernel copies the segments of an ELF image into the new address space,
  over pages it does not clear.  `spawn` builds each page at `UTEMP` out of the
  file, or takes an empty page, and maps it into the child.  For every loadable
  segment both leave the bytes of the file followed by zeros.

  An address space maps page numbers to pages of bytes.  Memory does not run
  out.
-/
import Jos.Ulib.Pipe

namespace Jos.Loader
open Function (update update_of_ne update_self)

/-! ## §1. Address spaces. -/

def PGSIZE : Nat := 4096
def UTOP : Nat := 0xeec00000
def USTACKTOP : Nat := 0xeebfe000

example : PGSIZE = Jos.PGSIZE.toNat ∧ UTOP = Jos.UTOP.toNat ∧ USTACKTOP = Jos.USTACKTOP.toNat :=
  ⟨rfl, rfl, rfl⟩

abbrev Space := Nat → Option (Nat → Byte)

def read (m : Space) (a : Nat) : Option Byte := (m (a / PGSIZE)).map fun page => page (a % PGSIZE)

/-- A store; `none` is a page fault. -/
def write (m : Space) (a : Nat) (x : Byte) : Option Space :=
  match m (a / PGSIZE) with
  | none => none
  | some page => some (update m (a / PGSIZE) (some (update page (a % PGSIZE) x)))

/-- `memmove` or `memset`: `n` bytes to `dst`. -/
def fill (m : Space) (dst : Nat) (src : Nat → Byte) : Nat → Option Space
  | 0 => some m
  | n + 1 => (fill m dst src n).bind fun m' => write m' (dst + n) (src n)

/-- `n` pages from page `p` on; `page_alloc(0)` leaves `junk` in them. -/
def allocPages (m : Space) (junk : Nat → Nat → Byte) (p : Nat) : Nat → Space
  | 0 => m
  | n + 1 => update (allocPages m junk p n) (p + n) (some (junk (p + n)))

/-! ## §2. The image. -/

def ELF_MAGIC : Nat := 0x464C457F
def ELF_PROG_LOAD : Nat := 1

/-- The bytes of the image, from 0 on. -/
abbrev Image := Nat → Byte

/-- A little-endian number of `n` bytes. -/
def number (f : Image) (a : Nat) : Nat → Nat
  | 0 => 0
  | n + 1 => number f a n + (f (a + n)).toNat * 256 ^ n

def eMagic (f : Image) : Nat := number f 0 4
def eEntry (f : Image) : Nat := number f 24 4
def ePhoff (f : Image) : Nat := number f 28 4
def ePhnum (f : Image) : Nat := number f 44 2

structure Proghdr where
  type : Nat
  offset : Nat
  va : Nat
  filesz : Nat
  memsz : Nat
  deriving DecidableEq

def proghdr (f : Image) (a : Nat) : Proghdr where
  type := number f a 4
  offset := number f (a + 4) 4
  va := number f (a + 8) 4
  filesz := number f (a + 16) 4
  memsz := number f (a + 20) 4

/-- The program headers. -/
def proghdrs (f : Image) : List Proghdr :=
  (List.range (ePhnum f)).map fun i => proghdr f (ePhoff f + 32 * i)

/-! ## §3. `load_icode`. -/

/-- `ROUNDUP(a, PGSIZE) / PGSIZE` for a 32-bit `a`. -/
def pageUp (a : Nat) : Nat := (a + 4095) % 2 ^ 32 / PGSIZE

/-- `region_alloc(e, va, len)`; `none` is a panic. -/
def regionAlloc (junk : Nat → Nat → Byte) (m : Space) (va len : Nat) : Option Space :=
  let max := pageUp ((va + len) % 2 ^ 32)
  let min := va / PGSIZE
  if UTOP < max * PGSIZE then none else some (allocPages m junk min (max - min))

/-- One round of the loop of `load_icode`. -/
def loadSegment (junk : Nat → Nat → Byte) (f : Image) (m : Space) (ph : Proghdr) : Option Space :=
  if ph.type ≠ ELF_PROG_LOAD then some m
  else if ph.memsz < ph.filesz then none
  else
    (regionAlloc junk m ph.va ph.memsz).bind fun m =>
      (fill m ph.va (fun k => f (ph.offset + k)) ph.filesz).bind fun m =>
        fill m ((ph.va + ph.filesz) % 2 ^ 32) (fun _ => 0#8) (ph.memsz - ph.filesz)

/-- `load_icode`: the address space and `tf_eip`. -/
def loadIcode (junk : Nat → Nat → Byte) (f : Image) (m : Space) : Option (Space × Nat) :=
  if eMagic f ≠ ELF_MAGIC then none
  else
    ((proghdrs f).foldlM (loadSegment junk f) m).bind fun m =>
      (regionAlloc junk m (USTACKTOP - PGSIZE) PGSIZE).map fun m => (m, eEntry f)

/-! ## §4. `spawn`. -/

/-- `read(fd, buf, n)` at offset `off`: what the file server returns. -/
def readAt (file : List Byte) (off n : Nat) : List Byte := (file.drop off).take n

/-- The loop of `readn`, at most `k` rounds. -/
def readnFrom (file : List Byte) : Nat → Nat → Nat → List Byte
  | 0, _, _ => []
  | k + 1, off, n =>
    if 0 < n then
      let xs := readAt file off n
      if xs.length = 0 then [] else xs ++ readnFrom file k (off + xs.length) (n - xs.length)
    else []

def readn (file : List Byte) (off n : Nat) : List Byte := readnFrom file (n + 1) off n

/-- The page that is mapped at `va + i`. -/
def segmentPage (file : List Byte) (filesz fileoffset i : Nat) : Nat → Byte :=
  if filesz ≤ i then fun _ => 0#8
  else fun o => (readn file (fileoffset + i) (min PGSIZE (filesz - i))).getD o 0#8

/-- The loop of `map_segment`, from page `j` on, at most `k` rounds. -/
def mapFrom (file : List Byte) (va memsz filesz fileoffset : Nat) : Nat → Nat → Space → Space
  | 0, _, m => m
  | k + 1, j, m =>
    if PGSIZE * j < memsz then
      mapFrom file va memsz filesz fileoffset k (j + 1)
        (update m ((va + PGSIZE * j) % 2 ^ 32 / PGSIZE)
          (some (segmentPage file filesz fileoffset (PGSIZE * j))))
    else m

def mapSegment (file : List Byte) (m : Space) (ph : Proghdr) : Space :=
  let i := ph.va % PGSIZE
  mapFrom file (ph.va - i) (ph.memsz + i) (ph.filesz + i) (ph.offset - i) (2 ^ 20) 0 m

def spawnSegment (file : List Byte) (m : Space) (ph : Proghdr) : Space :=
  if ph.type ≠ ELF_PROG_LOAD then m else mapSegment file m ph

/-- `spawn`, up to the end of its loop: the child's address space and `tf_eip`, or
`none` for `-E_NOT_EXEC`.  `m` is the child's address space after
`init_stack`. -/
def spawn (file : List Byte) (m : Space) : Option (Space × Nat) :=
  let elfBuf := readn file 0 512
  let f : Image := fun k => elfBuf.getD k 0#8
  if elfBuf.length ≠ 512 ∨ eMagic f ≠ ELF_MAGIC then none
  else some ((proghdrs f).foldl (spawnSegment file) m, eEntry f)

/-! ## §5. Stores. -/

theorem pgsize_split (a : Nat) : a / PGSIZE * PGSIZE + a % PGSIZE = a := Nat.div_add_mod' a PGSIZE

/-- Reading after a page has been replaced. -/
theorem read_update {m : Space} {p : Nat} {page : Nat → Byte} (a : Nat) :
    read (update m p (some page)) a
      = if a / PGSIZE = p then some (page (a % PGSIZE)) else read m a := by
  unfold read
  by_cases hp : a / PGSIZE = p
  · rw [if_pos hp, hp, update_self]
    rfl
  · rw [if_neg hp, update_of_ne hp]

theorem write_spec {m : Space} {a : Nat} (x : Byte) (h : (m (a / PGSIZE)).isSome) :
    ∃ m', write m a x = some m' ∧ (∀ p, (m' p).isSome = (m p).isSome) ∧
      ∀ b, read m' b = if b = a then some x else read m b := by
  obtain ⟨page, hp⟩ := Option.isSome_iff_exists.mp h
  refine ⟨_, by unfold write; rw [hp], fun p => ?_, fun b => ?_⟩
  · by_cases hpa : p = a / PGSIZE
    · rw [hpa, update_self, hp]
      rfl
    · rw [update_of_ne hpa]
  · rw [read_update]
    by_cases hba : b = a
    · rw [if_pos hba, hba, if_pos rfl, update_self]
    · rw [if_neg hba]
      by_cases hpg : b / PGSIZE = a / PGSIZE
      · -- another byte of the same page
        have hoff : b % PGSIZE ≠ a % PGSIZE := by
          intro ho
          rw [← pgsize_split b, ← pgsize_split a, hpg, ho] at hba
          exact hba rfl
        rw [if_pos hpg, update_of_ne hoff]
        unfold read
        rw [hpg, hp]
        rfl
      · rw [if_neg hpg]

/-- **`n` bytes are stored** at mapped addresses. -/
theorem fill_spec (m : Space) (dst : Nat) (src : Nat → Byte) (n : Nat)
    (h : ∀ a, dst ≤ a → a < dst + n → (m (a / PGSIZE)).isSome) :
    ∃ m', fill m dst src n = some m' ∧ (∀ p, (m' p).isSome = (m p).isSome) ∧
      ∀ a, read m' a = if dst ≤ a ∧ a < dst + n then some (src (a - dst)) else read m a := by
  induction n with
  | zero =>
    refine ⟨m, rfl, fun _ => rfl, fun a => ?_⟩
    rw [if_neg (by omega)]
  | succ n ih =>
    obtain ⟨m₁, hm₁, hs₁, hr₁⟩ := ih fun a h1 h2 => h a h1 (by omega)
    obtain ⟨m₂, hm₂, hs₂, hr₂⟩ := write_spec (m := m₁) (a := dst + n) (src n)
      (by rw [hs₁]; exact h _ (by omega) (by omega))
    refine ⟨m₂, ?_, fun p => (hs₂ p).trans (hs₁ p), fun a => ?_⟩
    · unfold fill
      rw [hm₁]
      exact hm₂
    · rw [hr₂, hr₁]
      by_cases ha : a = dst + n
      · rw [if_pos ha, if_pos (by omega), ha, Nat.add_sub_cancel_left]
      · rw [if_neg ha]
        by_cases hr : dst ≤ a ∧ a < dst + n
        · rw [if_pos hr, if_pos (by omega)]
        · rw [if_neg hr, if_neg (by omega)]

theorem allocPages_eq {m : Space} {junk : Nat → Nat → Byte} {p : Nat} (n q : Nat) :
    allocPages m junk p n q = if p ≤ q ∧ q < p + n then some (junk q) else m q := by
  induction n with
  | zero =>
    unfold allocPages
    rw [if_neg (by omega)]
  | succ n ih =>
    unfold allocPages
    by_cases hq : q = p + n
    · rw [hq, update_self, if_pos (by omega)]
    · rw [update_of_ne hq, ih]
      by_cases hr : p ≤ q ∧ q < p + n
      · rw [if_pos hr, if_pos (by omega)]
      · rw [if_neg hr, if_neg (by omega)]

/-! ## §6. One segment. -/

/-- The pages of a segment. -/
def Proghdr.Has (ph : Proghdr) (p : Nat) : Prop :=
  ph.va / PGSIZE ≤ p ∧ p < (ph.va + ph.memsz + 4095) / PGSIZE

instance (ph : Proghdr) (p : Nat) : Decidable (ph.Has p) := inferInstanceAs (Decidable (_ ∧ _))

/-- A loadable segment that both loaders take. -/
structure SegmentOk (file : List Byte) (ph : Proghdr) : Prop where
  sizes : ph.filesz ≤ ph.memsz
  below : ph.va + ph.memsz ≤ USTACKTOP - PGSIZE
  offset : ph.offset % PGSIZE = ph.va % PGSIZE
  inside : ph.offset + ph.filesz ≤ file.length

/-- The segment is in memory: the file's bytes, then zeros. -/
def Holds (file : List Byte) (m : Space) (ph : Proghdr) : Prop :=
  ∀ k < ph.memsz, read m (ph.va + k)
    = some (if k < ph.filesz then file.getD (ph.offset + k) 0#8 else 0#8)

theorem Proghdr.has_of_byte {ph : Proghdr} {a : Nat} (h1 : ph.va ≤ a) (h2 : a < ph.va + ph.memsz) :
    ph.Has (a / PGSIZE) := by
  unfold Proghdr.Has PGSIZE
  omega

section

variable {file : List Byte} {ph : Proghdr} {m : Space}

theorem regionAlloc_eq (junk : Nat → Nat → Byte) (hok : ph.va + ph.memsz ≤ USTACKTOP) :
    regionAlloc junk m ph.va ph.memsz = some (allocPages m junk (ph.va / PGSIZE)
      ((ph.va + ph.memsz + 4095) / PGSIZE - ph.va / PGSIZE)) := by
  have hup : pageUp ((ph.va + ph.memsz) % 2 ^ 32) = (ph.va + ph.memsz + 4095) / PGSIZE := by
    unfold USTACKTOP at hok
    unfold pageUp PGSIZE
    omega
  unfold regionAlloc
  rw [hup, if_neg ?_]
  unfold UTOP PGSIZE
  unfold USTACKTOP at hok
  omega

/-- **The kernel loads a segment.** -/
theorem loadSegment_spec (junk : Nat → Nat → Byte) (hok : SegmentOk file ph)
    (htype : ph.type = ELF_PROG_LOAD) :
    ∃ m', loadSegment junk (fun k => file.getD k 0#8) m ph = some m' ∧ Holds file m' ph ∧
      ∀ a, ¬ ph.Has (a / PGSIZE) → read m' a = read m a := by
  have hbelow : ph.va + ph.memsz ≤ USTACKTOP := le_trans hok.below (Nat.sub_le _ _)
  have hsizes := hok.sizes
  have hmapped : ∀ a, ph.va ≤ a → a < ph.va + ph.memsz →
      (allocPages m junk (ph.va / PGSIZE)
        ((ph.va + ph.memsz + 4095) / PGSIZE - ph.va / PGSIZE) (a / PGSIZE)).isSome := by
    intro a h1 h2
    obtain ⟨h3, h4⟩ := Proghdr.has_of_byte h1 h2
    rw [allocPages_eq, if_pos ⟨h3, by omega⟩]
    rfl
  obtain ⟨m₁, hm₁, hs₁, hr₁⟩ := fill_spec _ ph.va
    (fun k => file.getD (ph.offset + k) 0#8) ph.filesz
    (fun a h1 h2 => hmapped a h1 (by omega))
  obtain ⟨m₂, hm₂, hs₂, hr₂⟩ := fill_spec m₁ (ph.va + ph.filesz)
    (fun _ => 0#8) (ph.memsz - ph.filesz)
    (fun a h1 h2 => by rw [hs₁]; exact hmapped a (by omega) (by omega))
  have hwrap : (ph.va + ph.filesz) % 2 ^ 32 = ph.va + ph.filesz := by
    unfold USTACKTOP at hbelow
    omega
  refine ⟨m₂, ?_, fun k hk => ?_, fun a ha => ?_⟩
  · unfold loadSegment
    rw [if_neg (not_not.mpr htype), if_neg (by omega), regionAlloc_eq junk hbelow]
    show Option.bind (fill _ ph.va _ ph.filesz) _ = _
    rw [hm₁]
    rw [hwrap]
    exact hm₂
  · rw [hr₂, hr₁]
    by_cases hkf : k < ph.filesz
    · rw [if_neg (by omega), if_pos (by omega), if_pos hkf, Nat.add_sub_cancel_left]
    · rw [if_pos (by omega), if_neg hkf]
  · have hno : ¬ (ph.va ≤ a ∧ a < ph.va + ph.memsz) :=
      fun h => ha (Proghdr.has_of_byte h.1 h.2)
    rw [hr₂, hr₁, if_neg (by omega), if_neg (by omega)]
    unfold read
    rw [allocPages_eq, if_neg ?_]
    unfold Proghdr.Has at ha
    omega

theorem readnFrom_eq (k : Nat) : ∀ off n, n < k → readnFrom file k off n = (file.drop off).take
    n := by
  induction k with
  | zero => exact fun _ _ hk => absurd hk (by omega)
  | succ k ih =>
    intro off n hk
    unfold readnFrom
    by_cases hn : 0 < n
    · rw [if_pos hn]
      by_cases h0 : (readAt file off n).length = 0
      · rw [if_pos h0]
        exact (List.length_eq_zero_iff.mp h0).symm
      · rw [if_neg h0, ih _ _ (by omega)]
        unfold readAt at *
        rw [← List.drop_drop]
        generalize file.drop off = rest at *
        -- a short read is the end of the file
        by_cases hlen : n ≤ rest.length
        · rw [List.length_take, Nat.min_eq_left hlen, Nat.sub_self, List.take_zero,
            List.append_nil]
        · have hall : rest.take n = rest := List.take_of_length_le (by omega)
          rw [hall, List.drop_length, List.take_nil, List.append_nil]
    · rw [if_neg hn, show n = 0 by omega, List.take_zero]

theorem readn_getD (off n o : Nat) :
    (readn file off n).getD o 0#8 = if o < n then file.getD (off + o) 0#8 else 0#8 := by
  unfold readn
  rw [readnFrom_eq _ _ _ (Nat.lt_succ_self n), List.getD_eq_getElem?_getD, List.getElem?_take]
  by_cases ho : o < n
  · rw [if_pos ho, if_pos ho, List.getElem?_drop, ← List.getD_eq_getElem?_getD]
  · rw [if_neg ho, if_neg ho]
    rfl

/-- The loop of `map_segment` maps the pages `P` to before `P + n`. -/
theorem mapFrom_eq (filesz fileoffset : Nat) {P n memsz : Nat} (hn : (memsz + 4095) / PGSIZE = n)
    (hP : P + n < 2 ^ 20) (k : Nat) : ∀ (j : Nat) (m : Space), j ≤ n → n < j + k → ∀ q,
      mapFrom file (P * PGSIZE) memsz filesz fileoffset k j m q
        = if P + j ≤ q ∧ q < P + n then
            some (segmentPage file filesz fileoffset (PGSIZE * (q - P))) else m q := by
  induction k with
  | zero => exact fun _ _ hj hk _ => absurd hk (by omega)
  | succ k ih =>
    intro j m hj hk q
    unfold mapFrom
    by_cases hlt : PGSIZE * j < memsz
    · have hjn : j < n := by
        unfold PGSIZE at *
        omega
      have haddr : (P * PGSIZE + PGSIZE * j) % 2 ^ 32 / PGSIZE = P + j := by
        unfold PGSIZE
        omega
      rw [if_pos hlt, haddr, ih (j + 1) _ hjn (by omega) q]
      by_cases hq : q = P + j
      · rw [if_neg (by omega), if_pos (by omega), hq, update_self,
          Nat.add_sub_cancel_left]
      · rw [update_of_ne hq]
        by_cases hr : P + (j + 1) ≤ q ∧ q < P + n
        · rw [if_pos hr, if_pos (by omega)]
        · rw [if_neg hr, if_neg (by omega)]
    · have hjn : n ≤ j := by
        unfold PGSIZE at *
        omega
      rw [if_neg hlt, if_neg (by omega)]

/-- **`spawn` loads a segment.** -/
theorem spawnSegment_spec (hok : SegmentOk file ph) (htype : ph.type = ELF_PROG_LOAD) :
    Holds file (spawnSegment file m ph) ph ∧
      ∀ a, ¬ ph.Has (a / PGSIZE) → read (spawnSegment file m ph) a = read m a := by
  have hbelow := hok.below
  have hva : ph.va - ph.va % PGSIZE = ph.va / PGSIZE * PGSIZE := by
    have := pgsize_split ph.va
    omega
  have hoff : ph.va % PGSIZE ≤ ph.offset := by
    rw [← hok.offset]
    exact Nat.mod_le _ _
  obtain ⟨n, hn⟩ : ∃ n, (ph.memsz + ph.va % PGSIZE + 4095) / PGSIZE = n := ⟨_, rfl⟩
  have hend : (ph.va + ph.memsz + 4095) / PGSIZE = ph.va / PGSIZE + n := by
    rw [← hn]
    unfold PGSIZE
    omega
  have hP : ph.va / PGSIZE + n < 2 ^ 20 := by
    unfold USTACKTOP PGSIZE at *
    omega
  -- the child's pages
  have hpages : ∀ q, spawnSegment file m ph q = if ph.Has q then
      some (segmentPage file (ph.filesz + ph.va % PGSIZE) (ph.offset - ph.va % PGSIZE)
        (PGSIZE * (q - ph.va / PGSIZE))) else m q := by
    intro q
    have hn20 : n < 0 + 2 ^ 20 := by
      exact lt_of_le_of_lt (Nat.le_add_left n _) hP
    unfold spawnSegment mapSegment
    rw [if_neg (not_not.mpr htype), hva]
    refine (mapFrom_eq _ _ hn hP (2 ^ 20) 0 m (Nat.zero_le _) hn20 q).trans ?_
    rw [Nat.add_zero, ← hend]
    rfl
  refine ⟨fun k hk => ?_, fun a ha => ?_⟩
  · have hhas : ph.Has ((ph.va + k) / PGSIZE) := Proghdr.has_of_byte (by omega) (by omega)
    unfold read
    rw [hpages, if_pos hhas]
    show some (segmentPage file _ _ _ ((ph.va + k) % PGSIZE)) = _
    -- the address is byte `o` of page `i / PGSIZE` of the segment
    obtain ⟨i, hi⟩ : ∃ i, PGSIZE * ((ph.va + k) / PGSIZE - ph.va / PGSIZE) = i := ⟨_, rfl⟩
    obtain ⟨o, ho⟩ : ∃ o, (ph.va + k) % PGSIZE = o := ⟨_, rfl⟩
    have hsum : i + o = ph.va % PGSIZE + k := by
      unfold PGSIZE at *
      omega
    have holt : o < PGSIZE := by
      rw [← ho]
      exact Nat.mod_lt _ (by decide)
    rw [hi, ho]
    unfold segmentPage
    by_cases hfile : ph.filesz + ph.va % PGSIZE ≤ i
    · rw [if_pos hfile, if_neg (by omega)]
    · rw [if_neg hfile, readn_getD]
      by_cases hkf : k < ph.filesz
      · rw [if_pos (by omega), if_pos hkf]
        congr 2
        omega
      · rw [if_neg (by omega), if_neg hkf]
  · unfold read
    rw [hpages, if_neg ha]

/-! ## §7. The whole image. -/

/-- The images both loaders take.  Segments do not share pages. -/
structure ImageOk (file : List Byte) : Prop where
  magic : eMagic (fun k => file.getD k 0#8) = ELF_MAGIC
  headers : ePhoff (fun k => file.getD k 0#8) + 32 * ePhnum (fun k => file.getD k 0#8) ≤ 512
  segments : ∀ ph ∈ proghdrs (fun k => file.getD k 0#8), ph.type = ELF_PROG_LOAD →
    SegmentOk file ph
  apart : (proghdrs (fun k => file.getD k 0#8)).Pairwise fun ph ph' =>
    ph.type = ELF_PROG_LOAD → ph'.type = ELF_PROG_LOAD → ∀ p, ph.Has p → ¬ ph'.Has p

/-- What loading a list of segments leaves. -/
structure Loaded (file : List Byte) (phs : List Proghdr) (m m' : Space) : Prop where
  holds : ∀ ph ∈ phs, ph.type = ELF_PROG_LOAD → Holds file m' ph
  other : ∀ a, (∀ ph ∈ phs, ph.type = ELF_PROG_LOAD → ¬ ph.Has (a / PGSIZE)) →
    read m' a = read m a

/-- One more segment, before the others. -/
theorem Loaded.cons {phs : List Proghdr} {m₁ m₂ : Space} (hskip : ph.type ≠ ELF_PROG_LOAD → m₁ = m)
    (hhead : ph.type = ELF_PROG_LOAD → Holds file m₁ ph ∧
      ∀ a, ¬ ph.Has (a / PGSIZE) → read m₁ a = read m a)
    (hrest : Loaded file phs m₁ m₂)
    (hap : ∀ ph' ∈ phs, ph.type = ELF_PROG_LOAD → ph'.type = ELF_PROG_LOAD →
      ∀ p, ph.Has p → ¬ ph'.Has p) : Loaded file (ph :: phs) m m₂ := by
  refine ⟨fun ph' hph' htype => ?_, fun a ha => ?_⟩
  · rcases List.mem_cons.mp hph' with rfl | hph'
    · -- the later segments leave its pages alone
      intro k hk
      rw [hrest.other]
      · exact (hhead htype).1 k hk
      · exact fun ph'' hin ht => hap ph'' hin htype ht _
          (Proghdr.has_of_byte (Nat.le_add_right _ _) (Nat.add_lt_add_left hk _))
    · exact hrest.holds ph' hph' htype
  · rw [hrest.other a fun ph' hph' => ha ph' (List.mem_cons_of_mem _ hph')]
    by_cases htype : ph.type = ELF_PROG_LOAD
    · exact (hhead htype).2 a (ha ph List.mem_cons_self htype)
    · rw [hskip htype]

theorem loadAll_spec (junk : Nat → Nat → Byte) (phs : List Proghdr) : ∀ m,
    (∀ ph ∈ phs, ph.type = ELF_PROG_LOAD → SegmentOk file ph) →
    (phs.Pairwise fun ph ph' => ph.type = ELF_PROG_LOAD → ph'.type = ELF_PROG_LOAD →
      ∀ p, ph.Has p → ¬ ph'.Has p) →
    ∃ m', phs.foldlM (loadSegment junk fun k => file.getD k 0#8) m = some m' ∧
      Loaded file phs m m' := by
  induction phs with
  | nil => exact fun m _ _ => ⟨m, rfl, ⟨(fun _ h => nomatch h), fun _ _ => rfl⟩⟩
  | cons ph phs ih =>
    intro m hok hap
    obtain ⟨hap₁, hap₂⟩ := List.pairwise_cons.mp hap
    have hstep : ∃ m₁, loadSegment junk (fun k => file.getD k 0#8) m ph = some m₁ ∧
        (ph.type ≠ ELF_PROG_LOAD → m₁ = m) ∧ (ph.type = ELF_PROG_LOAD → Holds file m₁ ph ∧
          ∀ a, ¬ ph.Has (a / PGSIZE) → read m₁ a = read m a) := by
      by_cases htype : ph.type = ELF_PROG_LOAD
      · obtain ⟨m₁, hm₁, hrest⟩ := loadSegment_spec (m := m) junk
          (hok ph List.mem_cons_self htype) htype
        exact ⟨m₁, hm₁, fun hno => absurd htype hno, fun _ => hrest⟩
      · exact ⟨m, if_pos htype, fun _ => rfl, fun h => absurd h htype⟩
    obtain ⟨m₁, hm₁, hskip, hhead⟩ := hstep
    obtain ⟨m₂, hm₂, hload⟩ := ih m₁ (fun p hp => hok p (List.mem_cons_of_mem _ hp)) hap₂
    refine ⟨m₂, ?_, Loaded.cons hskip hhead hload hap₁⟩
    rw [List.foldlM_cons, hm₁]
    exact hm₂

theorem spawnAll_spec (phs : List Proghdr) : ∀ m,
    (∀ ph ∈ phs, ph.type = ELF_PROG_LOAD → SegmentOk file ph) →
    (phs.Pairwise fun ph ph' => ph.type = ELF_PROG_LOAD → ph'.type = ELF_PROG_LOAD →
      ∀ p, ph.Has p → ¬ ph'.Has p) →
    Loaded file phs m (phs.foldl (spawnSegment file) m) := by
  induction phs with
  | nil => exact fun m _ _ => ⟨(fun _ h => nomatch h), fun _ _ => rfl⟩
  | cons ph phs ih =>
    intro m hok hap
    obtain ⟨hap₁, hap₂⟩ := List.pairwise_cons.mp hap
    refine Loaded.cons (fun htype => if_pos htype)
      (fun htype => spawnSegment_spec (hok ph List.mem_cons_self htype) htype)
      (ih _ (fun p hp => hok p (List.mem_cons_of_mem _ hp)) hap₂) hap₁

/-- Numbers read from the same bytes are the same. -/
theorem number_congr {f g : Image} {a : Nat} (n : Nat) (h : ∀ k, a ≤ k → k < a + n → f k = g k) :
    number f a n = number g a n := by
  induction n with
  | zero => rfl
  | succ n ih =>
    unfold number
    rw [ih fun k h1 h2 => h k h1 (by omega), h (a + n) (by omega) (by omega)]

/-- The headers depend on the first 512 bytes only. -/
theorem proghdrs_congr {f g : Image} (h : ∀ k < 512, f k = g k)
    (hin : ePhoff f + 32 * ePhnum f ≤ 512) : proghdrs g = proghdrs f := by
  have hoff : ePhoff g = ePhoff f := number_congr 4 fun k _ hk => (h k (by omega)).symm
  have hnum : ePhnum g = ePhnum f := number_congr 2 fun k _ hk => (h k (by omega)).symm
  unfold proghdrs
  rw [hoff, hnum]
  apply List.map_congr_left
  intro i hi
  have hlt : i < ePhnum f := List.mem_range.mp hi
  have hnb : ∀ d, d + 4 ≤ 32 → number g (ePhoff f + 32 * i + d) 4
      = number f (ePhoff f + 32 * i + d) 4 :=
    fun d hd => number_congr 4 fun k _ hk => (h k (by omega)).symm
  unfold proghdr
  rw [hnb 4 (by omega), hnb 8 (by omega), hnb 16 (by omega), hnb 20 (by omega)]
  rw [show number g (ePhoff f + 32 * i) 4 = number f (ePhoff f + 32 * i) 4 from hnb 0 (by omega)]

/-- **The two loaders agree.**  For every image of at least 512 bytes that both
take, each of them ends with the bytes of every loadable segment in place, and
the environment starts at `e_entry`; whatever was in the address spaces before,
and whatever the kernel's pages held. -/
theorem loaders_agree (hok : ImageOk file) (hlong : 512 ≤ file.length) (junk : Nat → Nat → Byte)
    (mk ms : Space) :
    ∃ mk' ms', loadIcode junk (fun k => file.getD k 0#8) mk
        = some (mk', eEntry fun k => file.getD k 0#8) ∧
      spawn file ms = some (ms', eEntry fun k => file.getD k 0#8) ∧
      ∀ ph ∈ proghdrs (fun k => file.getD k 0#8), ph.type = ELF_PROG_LOAD → ∀ k < ph.memsz,
        read mk' (ph.va + k) = some (if k < ph.filesz then file.getD (ph.offset + k) 0#8 else 0#8) ∧
        read ms' (ph.va + k) = read mk' (ph.va + k) := by
  obtain ⟨m₁, hm₁, hload⟩ := loadAll_spec junk _ mk hok.segments hok.apart
  have hspawn := spawnAll_spec _ ms hok.segments hok.apart
  -- the stack page comes last
  refine ⟨allocPages m₁ junk (USTACKTOP / PGSIZE - 1) 1,
    (proghdrs fun k => file.getD k 0#8).foldl (spawnSegment file) ms, ?_, ?_,
    fun ph hph htype k hk => ?_⟩
  · unfold loadIcode
    rw [if_neg (not_not.mpr hok.magic), hm₁]
    rfl
  · have hbuf : ∀ k < 512, (fun k => file.getD k 0#8) k = (fun k =>
      (readn file 0 512).getD k 0#8) k := by
      intro k hk
      show file.getD k 0#8 = (readn file 0 512).getD k 0#8
      rw [readn_getD, if_pos hk, Nat.zero_add]
    have hlen : (readn file 0 512).length = 512 := by
      unfold readn
      rw [readnFrom_eq _ _ _ (by omega), List.drop_zero, List.length_take]
      omega
    have hmagic : eMagic (fun k => (readn file 0 512).getD k 0#8) = ELF_MAGIC := by
      rw [← hok.magic]
      exact number_congr 4 fun k _ hk => (hbuf k (by omega)).symm
    have hentry : eEntry (fun k => (readn file 0 512).getD k 0#8) = eEntry fun k =>
      file.getD k 0#8 :=
      number_congr 4 fun k _ hk => (hbuf k (by omega)).symm
    unfold spawn
    rw [if_neg (by rw [not_or]; exact ⟨not_not.mpr hlen, not_not.mpr hmagic⟩), hentry,
      proghdrs_congr hbuf hok.headers]
  · have hk' := hload.holds ph hph htype k hk
    have hs' := hspawn.holds ph hph htype k hk
    have hbelow := (hok.segments ph hph htype).below
    have hsame : read (allocPages m₁ junk (USTACKTOP / PGSIZE - 1) 1) (ph.va + k)
        = read m₁ (ph.va + k) := by
      unfold read
      rw [allocPages_eq, if_neg ?_]
      unfold USTACKTOP PGSIZE at *
      omega
    rw [hsame, hs', hk']
    exact ⟨rfl, rfl⟩

end

/-! ## §8. A short image. -/

/-- The headers of an image, and nothing else: 84 bytes, which are also the one
segment, at `0x800000` and with 12 bytes of zeros after them. -/
def shortImage : List Byte :=
  [127, 69, 76, 70, 0, 0, 0, 0, 0, 0, 0, 0, 0, 0, 0, 0, 0, 0, 0, 0, 0, 0, 0, 0, 32, 0, 128, 0,
    52, 0, 0, 0, 0, 0, 0, 0, 0, 0, 0, 0, 0, 0, 0, 0, 1, 0, 0, 0, 0, 0, 0, 0, 1, 0, 0, 0,
    0, 0, 0, 0, 0, 0, 128, 0, 0, 0, 0, 0, 84, 0, 0, 0, 96, 0, 0, 0, 0, 0, 0, 0, 0, 0, 0, 0].map
      (BitVec.ofNat 8)

theorem proghdrs_short : proghdrs (fun k => shortImage.getD k 0#8)
    = [⟨1, 0, 0x800000, 84, 96⟩] := by
  decide

/-- The same image, filled up to 512 bytes. -/
def longImage : List Byte := shortImage ++ List.replicate 428 0#8

theorem longImage_getD (k : Nat) : longImage.getD k 0#8 = shortImage.getD k 0#8 := by
  unfold longImage
  rw [List.getD_eq_getElem?_getD, List.getD_eq_getElem?_getD, List.getElem?_append]
  split
  · rfl
  · rename_i hk
    rw [List.getElem?_replicate, List.getElem?_eq_none (Nat.not_lt.mp hk)]
    split
    · rfl
    · rfl

theorem imageOk_short {file : List Byte} (hlen : 84 ≤ file.length)
    (hsame : (fun k => file.getD k 0#8) = fun k => shortImage.getD k 0#8) : ImageOk file := by
  refine ⟨?_, ?_, ?_, ?_⟩
  · rw [hsame]
    decide
  · rw [hsame]
    decide
  · rw [hsame, proghdrs_short]
    intro ph hph _
    rw [List.mem_singleton.mp hph]
    exact ⟨by decide, by decide, rfl, hlen⟩
  · rw [hsame, proghdrs_short]
    exact List.pairwise_singleton _ _

theorem loaders_agree_long : 512 ≤ longImage.length ∧ ∃ mk' ms',
    loadIcode (fun _ _ => 1#8) (fun k => longImage.getD k 0#8) (fun _ => none)
        = some (mk', eEntry fun k => longImage.getD k 0#8) ∧
      spawn longImage (fun _ => none) = some (ms', eEntry fun k => longImage.getD k 0#8) := by
  have hlen : 512 ≤ longImage.length := by
    unfold longImage
    rw [List.length_append, List.length_replicate]
    decide
  obtain ⟨mk', ms', hk, hs, -⟩ := loaders_agree
    (imageOk_short (by omega) (funext longImage_getD)) hlen (fun _ _ => 1#8) (fun _ => none)
    (fun _ => none)
  exact ⟨hlen, mk', ms', hk, hs⟩

/-- **`spawn` refuses the short image**, which the kernel loads: `readn` returns
84 bytes instead of 512. -/
theorem spawn_refuses_short : ImageOk shortImage ∧
    (∃ m, loadIcode (fun _ _ => 0#8) (fun k => shortImage.getD k 0#8) (fun _ => none) = some m) ∧
      spawn shortImage (fun _ => none) = none := by
  have hok := imageOk_short (show 84 ≤ shortImage.length by decide) rfl
  have hread : (readn shortImage 0 512).length ≠ 512 := by
    unfold readn
    decide
  refine ⟨hok, ?_, ?_⟩
  · obtain ⟨m₁, hm₁, -⟩ := loadAll_spec (fun _ _ => 0#8) _ (fun _ => none) hok.segments hok.apart
    unfold loadIcode
    rw [if_neg (not_not.mpr hok.magic), hm₁]
    exact ⟨_, rfl⟩
  · unfold spawn
    rw [if_pos (Or.inl hread)]

/-! ## §9. Headers and pages of any file. -/

/-- `elf_buf` of `spawn`. -/
def elfBuf (file : List Byte) : Image := fun k => (readn file 0 512).getD k 0#8

/-- Where program header `i` starts, counted from `elf_buf` by the pointer `ph`. -/
def headerOffset (f : Image) (i : Nat) : Nat := (ePhoff f + 32 * i) % 2 ^ 32

/-- The addresses at which the loop of `map_segment` maps a page, at most `k` rounds
from `i` on.  It ends at the first call that fails: `ok` is false, or the kernel
refuses an address at or above `UTOP`. -/
def mappedFrom (ok : Nat → Bool) (va memsz : Nat) : Nat → Nat → List Nat
  | 0, _ => []
  | k + 1, i =>
    if i < memsz ∧ (va + i) % 2 ^ 32 < UTOP ∧ ok i then
      (va + i) % 2 ^ 32 :: mappedFrom ok va memsz k ((i + PGSIZE) % 2 ^ 32)
    else []

/-- The addresses `spawn` maps for a program header. -/
def mappedFor (ok : Nat → Bool) (k : Nat) (ph : Proghdr) : List Nat :=
  if ph.type ≠ ELF_PROG_LOAD then []
  else
    let i := ph.va % PGSIZE
    mappedFrom ok (ph.va - i) ((ph.memsz + i) % 2 ^ 32) k 0

/-- Whether the loop of `map_segment` comes to its end. -/
def mapsAll (ok : Nat → Bool) (va memsz : Nat) : Nat → Nat → Bool
  | 0, i => decide (memsz ≤ i)
  | k + 1, i =>
    if i < memsz then
      decide ((va + i) % 2 ^ 32 < UTOP) && ok i && mapsAll ok va memsz k ((i + PGSIZE) % 2 ^ 32)
    else true

/-- Whether `spawn` goes on after a program header; there are not more pages than bytes. -/
def goesOn (ok : Nat → Bool) (ph : Proghdr) : Bool :=
  ph.type != ELF_PROG_LOAD ||
    let i := ph.va % PGSIZE
    let memsz := (ph.memsz + i) % 2 ^ 32
    mapsAll ok (ph.va - i) memsz memsz 0

/-- The program headers the loop of `spawn` inspects, at most `k` from number `i` on; `ok i`
says which calls of `map_segment` succeed for header `i`. -/
def inspectedFrom (f : Image) (ok : Nat → Nat → Bool) : Nat → Nat → List Nat
  | 0, _ => []
  | k + 1, i =>
    i :: if goesOn (ok i) (proghdr f (headerOffset f i)) then inspectedFrom f ok k (i + 1) else []

def inspected (f : Image) (ok : Nat → Nat → Bool) : List Nat := inspectedFrom f ok (ePhnum f) 0

theorem number_lt (f : Image) (a n : Nat) : number f a n < 256 ^ n := by
  induction n with
  | zero => exact Nat.one_pos
  | succ n ih =>
    have hbyte : (f (a + n)).toNat ≤ 255 := Nat.le_of_lt_succ (f (a + n)).isLt
    have hmul := Nat.mul_le_mul_right (256 ^ n) hbyte
    rw [number, Nat.pow_succ]
    omega

/-- The address does not wrap: `UTOP` comes first. -/
theorem mappedFrom_inside (ok : Nat → Bool) {va memsz : Nat} (k : Nat) : ∀ i, va + i < 2 ^ 32 →
    ∀ a ∈ mappedFrom ok va memsz k i, a < UTOP ∧ va ≤ a ∧ a < va + memsz := by
  induction k with
  | zero =>
    intro i _ a ha
    exact absurd ha List.not_mem_nil
  | succ k ih =>
    intro i hi a ha
    rw [mappedFrom, Nat.mod_eq_of_lt hi] at ha
    split at ha
    next hc =>
      obtain ⟨hlt, htop, -⟩ := hc
      rcases List.mem_cons.mp ha with rfl | ha
      · omega
      · unfold UTOP at htop
        unfold PGSIZE at ha
        exact ih _ (by omega) a ha
    next => exact absurd ha List.not_mem_nil

/-- The segment cannot be mapped: it has a page at or above `UTOP`. -/
def Proghdr.BeyondUtop (ph : Proghdr) : Prop :=
  ph.type = ELF_PROG_LOAD ∧ 0 < (ph.memsz + ph.va % PGSIZE) % 2 ^ 32 ∧
    UTOP < ph.va / PGSIZE * PGSIZE + (ph.memsz + ph.va % PGSIZE) % 2 ^ 32

/-- The loop comes to its end if no call fails but those for pages above `UTOP`, and there
are none. -/
theorem mapsAll_iff {va memsz : Nat} (hva : va % 4096 = 0) (k : Nat) :
    ∀ i, i % 4096 = 0 → va + i ≤ 2 ^ 32 - 4096 → memsz ≤ i + 4096 * k →
      (mapsAll (fun _ => true) va memsz k i = true ↔ memsz ≤ i ∨ va + memsz ≤ UTOP) := by
  induction k with
  | zero =>
    intro i _ _ hk
    simp only [mapsAll, decide_eq_true_eq]
    omega
  | succ k ih =>
    intro i hi hlt hk
    unfold mapsAll
    by_cases hm : i < memsz
    · rw [if_pos hm, Nat.mod_eq_of_lt (by omega)]
      by_cases htop : va + i < UTOP
      · unfold UTOP PGSIZE at *
        rw [Nat.mod_eq_of_lt (by omega), decide_eq_true htop, Bool.true_and, Bool.true_and,
          ih _ (by omega) (by omega) (by omega)]
        omega
      · rw [decide_eq_false htop]
        simp
        omega
    · rw [if_neg hm]
      simp
      omega

theorem goesOn_iff {ph : Proghdr} (hva : ph.va < 2 ^ 32) :
    goesOn (fun _ => true) ph = true ↔ ¬ ph.BeyondUtop := by
  have hall := @mapsAll_iff (ph.va - ph.va % PGSIZE) ((ph.memsz + ph.va % PGSIZE) % 2 ^ 32)
    (by unfold PGSIZE; omega)
    ((ph.memsz + ph.va % PGSIZE) % 2 ^ 32) 0 rfl (by unfold PGSIZE; omega) (by omega)
  unfold goesOn Proghdr.BeyondUtop
  rw [Bool.or_eq_true, bne_iff_ne, hall]
  unfold PGSIZE
  by_cases htype : ph.type = ELF_PROG_LOAD
  · simp only [htype, ne_eq, not_true_eq_false, false_or, true_and]
    omega
  · simp [htype]

theorem goesOn_mono {ok : Nat → Bool} {ph : Proghdr} (h : goesOn ok ph = true) :
    goesOn (fun _ => true) ph = true := by
  have hall : ∀ (va memsz k i : Nat), mapsAll ok va memsz k i = true →
      mapsAll (fun _ => true) va memsz k i = true := by
    intro va memsz k
    induction k with
    | zero => exact fun _ h => h
    | succ k ih =>
      intro i h
      unfold mapsAll at h ⊢
      split
      · rw [if_pos (by assumption), Bool.and_eq_true, Bool.and_eq_true] at h
        rw [h.1.1, ih _ h.2]
        rfl
      · rfl
  unfold goesOn at h ⊢
  rw [Bool.or_eq_true] at h ⊢
  exact h.imp_right fun h => hall _ _ _ _ h

/-- A header is inspected if `spawn` goes on after all before it. -/
theorem mem_inspectedFrom {f : Image} {ok : Nat → Nat → Bool} {j : Nat} (k : Nat) : ∀ i,
    j ∈ inspectedFrom f ok k i ↔ i ≤ j ∧ j < i + k ∧
      ∀ n, i ≤ n → n < j → goesOn (ok n) (proghdr f (headerOffset f n)) = true := by
  induction k with
  | zero =>
    intro i
    exact ⟨fun h => absurd h List.not_mem_nil, fun h => by omega⟩
  | succ k ih =>
    intro i
    rw [inspectedFrom, List.mem_cons]
    constructor
    · rintro (rfl | h)
      · exact ⟨le_rfl, by omega, fun n h1 h2 => by omega⟩
      · split at h
        · rename_i hgo
          obtain ⟨h1, h2, h3⟩ := (ih (i + 1)).mp h
          refine ⟨by omega, by omega, fun n hn hnj => ?_⟩
          by_cases he : n = i
          · rwa [he]
          · exact h3 n (by omega) hnj
        · exact absurd h List.not_mem_nil
    · rintro ⟨h1, h2, h3⟩
      by_cases he : j = i
      · exact Or.inl he
      · rw [if_pos (h3 i le_rfl (by omega))]
        exact Or.inr ((ih (i + 1)).mpr ⟨by omega, by omega, fun n hn => h3 n (by omega)⟩)

/-- The header table ends within the 512 bytes, or a segment that cannot be mapped ends
the loop before it leaves them. -/
def HeadersFit (f : Image) : Prop :=
  ∀ i < ePhnum f, ePhoff f + 32 * (i + 1) ≤ 512 ∨
    ∃ n < i, (proghdr f (headerOffset f n)).BeyondUtop

/-- **Headers and pages of any file.**  The headers `spawn` looks at lie inside the 512 bytes
for every outcome of its calls exactly if they fit; and whatever a header says, the pages
mapped for it lie below `UTOP` and inside its segment. -/
theorem spawn_headers_inside (file : List Byte) :
    ((∀ ok, ∀ i ∈ inspected (elfBuf file) ok, headerOffset (elfBuf file) i + 32 ≤ 512) ↔
      HeadersFit (elfBuf file)) ∧
    ∀ (ok : Nat → Bool) (k o : Nat), ∀ ph, ph = proghdr (elfBuf file) o → ∀ a ∈ mappedFor ok k ph,
      a < UTOP ∧ ph.va / PGSIZE * PGSIZE ≤ a ∧ a < ph.va + ph.memsz := by
  have hva : ∀ o, (proghdr (elfBuf file) o).va < 2 ^ 32 := fun o => number_lt _ _ 4
  have hnum : ePhnum (elfBuf file) < 65536 := number_lt _ _ 2
  have hoff : ePhoff (elfBuf file) < 2 ^ 32 := number_lt _ _ 4
  have hmem := fun ok j => @mem_inspectedFrom (elfBuf file) ok j
    (ePhnum (elfBuf file)) 0
  refine ⟨⟨fun h i hi => ?_, fun h ok i hi => ?_⟩, fun ok k o ph hph a ha => ?_⟩
  · -- with every call succeeding, only a segment above `UTOP` ends the loop
    by_contra hno
    push Not at hno
    obtain ⟨hout, hall⟩ := hno
    have hin : ∀ j ≤ i, headerOffset (elfBuf file) j + 32 ≤ 512 := fun j hj =>
      h (fun _ _ => true) j ((hmem _ j).mpr ⟨Nat.zero_le j, by omega, fun n _ hn =>
        (goesOn_iff (hva _)).mpr (hall n (by omega))⟩)
    have h0 := hin 0 (Nat.zero_le i)
    have hi' := hin i le_rfl
    unfold headerOffset at h0 hi'
    omega
  · obtain ⟨-, hlt, hgo⟩ := (hmem ok i).mp hi
    rcases h i (by omega) with hfit | ⟨n, hn, hbad⟩
    · unfold headerOffset
      omega
    · exact absurd hbad ((goesOn_iff (hva _)).mp (goesOn_mono (hgo n (Nat.zero_le n) hn)))
  · have hva := hva o
    rw [← hph] at hva
    unfold mappedFor at ha
    split at ha
    next => exact absurd ha List.not_mem_nil
    next =>
      have hin := mappedFrom_inside ok k 0 (by omega) a ha
      have hmem := Nat.mod_le (ph.memsz + ph.va % PGSIZE) (2 ^ 32)
      unfold PGSIZE at *
      omega

/-- The long image with `e_phoff` 512. -/
def farImage : List Byte := (shortImage.set 28 0#8).set 29 2#8 ++ List.replicate 428 0#8

/-- `spawn` accepts it and looks at a header behind `elf_buf`. -/
theorem spawn_header_outside : 512 ≤ farImage.length ∧
    eMagic (elfBuf farImage) = ELF_MAGIC ∧ 0 < ePhnum (elfBuf farImage) ∧
      512 < headerOffset (elfBuf farImage) 0 + 32 := by
  decide +kernel

/-! ## §10. What `spawn` leaves behind. -/

def E_NOT_EXEC : Word := 14#32
def UTEMP : Word := 0x400000#32

/-- What the caller has: descriptors, a page at `UTEMP`, environments. -/
structure Held where
  fds : List Nat
  utemp : Bool
  envs : List Nat
  deriving DecidableEq

/-- An error, and what is held then. -/
abbrev Exit := Option Word × Held

/-- The calls in one round of `map_segment`; `some r` is an error. -/
structure PageCalls where
  alloc : Option Word
  seek : Option Word
  readn : Option Word

/-- How the calls of `spawn` end, and what lies behind `elf_buf`.  `pages n i` is the
round at `i` for header `n`. -/
structure SpawnCalls where
  openFile : Except Word Nat
  exofork : Except Word Nat
  stackAlloc : Option Word
  stackMap : Option Word
  pages : Nat → Nat → PageCalls
  behind : Image

/-- `argv_store - 2`. -/
def stackBottom (argv : List (List Byte)) : Word :=
  let size := argv.foldl (fun n arg => n + BitVec.ofNat 32 (arg.length + 1)) 0#32
  ((UTEMP + 4096#32 - size) &&& ~~~3#32) - 4#32 * BitVec.ofNat 32 (argv.length + 1) - 8#32

def initStack (argv : List (List Byte)) (c : SpawnCalls) (s : Held) : Exit :=
  if stackBottom argv < UTEMP then (some (-E_NO_MEM), s)
  else
    match c.stackAlloc with
    | some r => (some r, s)
    -- both after the last call and at `error:` the page is unmapped
    | none => (c.stackMap, { s with utemp := false })

/-- What `spawn` finds from `elf_buf` on. -/
def image (file : List Byte) (c : SpawnCalls) : Image := fun a =>
  if a < 512 then elfBuf file a else c.behind a

def headerOk (file : List Byte) (c : SpawnCalls) : Bool :=
  (readn file 0 512).length == 512 && eMagic (image file c) == ELF_MAGIC

/-- The rounds of `map_segment`: header, `i`, whether the page is from the file. -/
def rounds (f : Image) : List (Nat × Nat × Bool) :=
  (List.range (ePhnum f)).flatMap fun n =>
    let ph := proghdr f (headerOffset f n)
    let i := ph.va % PGSIZE
    if ph.type ≠ ELF_PROG_LOAD then []
    else (List.range (((ph.memsz + i) % 2 ^ 32 + 4095) / PGSIZE)).map fun j =>
      (n, PGSIZE * j, decide (PGSIZE * j < (ph.filesz + i) % 2 ^ 32))

/-- The loop of `spawn`; a failing `sys_page_map` panics. -/
def mapRounds (pages : Nat → Nat → PageCalls) : List (Nat × Nat × Bool) → Held → Exit
  | [], s => (none, s)
  | (n, i, fromFile) :: xs, s =>
    match (pages n i).alloc, fromFile with
    | some r, _ => (some r, s)
    | none, false => mapRounds pages xs s
    | none, true =>
      match (pages n i).seek.or (pages n i).readn with
      | some r => (some r, { s with utemp := true })
      | none => mapRounds pages xs { s with utemp := false }

/-- `spawn` and its exits, over what its calls give. -/
def spawnWith (opened : Except Word Nat) (ok : Bool) (forked : Except Word Nat)
    (init loop : Held → Exit) (s : Held) : Except Word Nat × Held :=
  match opened, ok, forked with
  | .error r, _, _ => (.error r, s)
  | .ok fd, false, _ => (.error (-E_NOT_EXEC), { s with fds := (fd :: s.fds).erase fd })
  | .ok fd, true, .error r => (.error r, { s with fds := fd :: s.fds })
  | .ok fd, true, .ok child =>
    match init { s with fds := fd :: s.fds, envs := child :: s.envs } with
    | (some r, s) => (.error r, s)
    | (none, s) =>
      match loop s with
      | (some r, s) => (.error r, { s with fds := s.fds.erase fd, envs := s.envs.erase child })
      | (none, s) => (.ok child, { s with fds := s.fds.erase fd })

def spawnExits (file : List Byte) (argv : List (List Byte)) (c : SpawnCalls) :
    Held → Except Word Nat × Held :=
  spawnWith c.openFile (headerOk file c) c.exofork (initStack argv c)
    (mapRounds c.pages (rounds (image file c)))

section
variable {s s' : Held}

/-- The first call to fail in these rounds, if any, is one of `sys_page_alloc`. -/
def AllocFailsFirst (pages : Nat → Nat → PageCalls) : List (Nat × Nat × Bool) → Prop
  | [] => True
  | (n, i, fromFile) :: xs => (pages n i).alloc ≠ none ∨
      ((fromFile = true → (pages n i).seek.or (pages n i).readn = none) ∧ AllocFailsFirst pages xs)

/-- A failing `seek` or `readn` leaves the page at `UTEMP`. -/
theorem mapRounds_held {pages : Nat → Nat → PageCalls} (hs : s.utemp = false)
    (xs : List (Nat × Nat × Bool)) :
    (AllocFailsFirst pages xs → ∃ e, mapRounds pages xs s = (e, s)) ∧
      (¬ AllocFailsFirst pages xs → ∃ r, mapRounds pages xs s = (some r,
        { s with utemp := true })) := by
  have hsame : { s with utemp := false } = s := by rw [← hs]
  induction xs with
  | nil => exact ⟨fun _ => ⟨none, rfl⟩, fun h => absurd trivial h⟩
  | cons x xs ih =>
    obtain ⟨n, i, fromFile⟩ := x
    unfold mapRounds AllocFailsFirst
    cases halloc : (pages n i).alloc with
    | some r => exact ⟨fun _ => ⟨_, rfl⟩, fun h => absurd (Or.inl (by simp)) h⟩
    | none =>
      cases fromFile with
      | false => simpa using ih
      | true =>
        cases hfile : (pages n i).seek.or (pages n i).readn with
        | some r => exact ⟨fun h => by simp at h, fun _ => ⟨r, rfl⟩⟩
        | none => simpa [hsame] using ih

theorem initStack_held (argv : List (List Byte)) (c : SpawnCalls) (s : Held) :
    (UTEMP ≤ stackBottom argv ∧ c.stackAlloc = none ∧ c.stackMap = none →
      initStack argv c s = (none, { s with utemp := false })) ∧
    (¬ (UTEMP ≤ stackBottom argv ∧ c.stackAlloc = none ∧ c.stackMap = none) →
      ∃ r s', initStack argv c s = (some r, s') ∧ s'.envs = s.envs) := by
  unfold initStack
  constructor
  · rintro ⟨hbottom, halloc, hmap⟩
    rw [if_neg (BitVec.not_lt.mpr hbottom), halloc, hmap]
  · intro hno
    split
    · exact ⟨_, _, rfl, rfl⟩
    · rename_i hbottom
      cases halloc : c.stackAlloc with
      | some r => exact ⟨_, _, rfl, rfl⟩
      | none =>
        cases hmap : c.stackMap with
        | some r => exact ⟨_, _, rfl, rfl⟩
        | none => exact absurd ⟨BitVec.not_lt.mp hbottom, halloc, hmap⟩ hno

/-- The exits of `spawn`, for `init_stack` that succeeds if `I` and rounds of `map_segment` that
leave nothing if `L`. -/
theorem spawnWith_iff {opened forked : Except Word Nat} {ok : Bool} {init loop : Held → Exit}
    {I L : Prop} (hs : s.utemp = false)
      (hinit : ∀ t, (I → init t = (none, { t with utemp := false })) ∧
      (¬ I → ∃ r t', init t = (some r, t') ∧ t'.envs = t.envs))
    (hloop : ∀ t : Held, t.utemp = false → (L → ∃ e, loop t = (e, t)) ∧
      (¬ L → ∃ r, loop t = (some r, { t with utemp := true }))) :
    (∀ r s', spawnWith opened ok forked init loop s = (.error r, s') → s' = s) ↔
      (∃ r, opened = .error r) ∨ ok = false ∨ ((∃ child, forked = .ok child) ∧ I ∧ L) := by
  cases opened with
  | error e => exact ⟨fun _ => Or.inl ⟨e, rfl⟩, fun _ r s' h => (Prod.mk.inj h).2.symm⟩
  | ok fd =>
    cases ok with
    | false =>
      refine ⟨fun _ => Or.inr (Or.inl rfl), fun _ r s' h => ?_⟩
      unfold spawnWith at h
      dsimp only at h
      rw [List.erase_cons_head] at h
      exact (Prod.mk.inj h).2.symm
    | true =>
      cases forked with
      | error e =>
        -- the descriptor stays open
        refine ⟨fun h => ?_, ?_⟩
        · exact absurd (congrArg (List.length ∘ Held.fds) (h e _ rfl)) (Nat.succ_ne_self _)
        · rintro (⟨r, h⟩ | h | ⟨⟨child, h⟩, -⟩) <;> cases h
      | ok child =>
        obtain ⟨hgood, hbad⟩ := hinit { s with fds := fd :: s.fds, envs := child :: s.envs }
        unfold spawnWith
        dsimp only
        by_cases hI : I
        · rw [hgood hI]
          obtain ⟨hkeep, hlose⟩ := hloop ⟨fd :: s.fds, false, child :: s.envs⟩ rfl
          dsimp only
          by_cases hL : L
          · refine ⟨fun _ => Or.inr (Or.inr ⟨⟨child, rfl⟩, hI, hL⟩), fun _ r s' h => ?_⟩
            obtain ⟨e, he⟩ := hkeep hL
            rw [he] at h
            cases e with
            | none => cases h
            | some r =>
              dsimp only at h
              rw [List.erase_cons_head, List.erase_cons_head, ← hs] at h
              exact (Prod.mk.inj h).2.symm
          · obtain ⟨r, he⟩ := hlose hL
            rw [he]
            refine ⟨fun h => ?_, ?_⟩
            · have hu := congrArg Held.utemp (h r _ rfl)
              rw [hs] at hu
              cases hu
            · rintro (⟨r, h⟩ | h | ⟨-, -, h⟩)
              · cases h
              · cases h
              · exact absurd h hL
        · -- an exit without `error:` leaves the child
          obtain ⟨r, t, he, henvs⟩ := hbad hI
          rw [he]
          refine ⟨fun h => ?_, ?_⟩
          · have hlen := congrArg (List.length ∘ Held.envs) (h r t rfl)
            dsimp only [Function.comp] at hlen
            rw [henvs] at hlen
            exact absurd hlen (Nat.succ_ne_self _)
          · rintro (⟨r, h⟩ | h | ⟨-, h, -⟩)
            · cases h
            · cases h
            · exact absurd h hI

/-- When a failing `spawn` gives everything back. -/
def CleansUp (file : List Byte) (argv : List (List Byte)) (c : SpawnCalls) : Prop :=
  (∃ r, c.openFile = .error r) ∨ headerOk file c = false ∨
    ((∃ child, c.exofork = .ok child) ∧
      (UTEMP ≤ stackBottom argv ∧ c.stackAlloc = none ∧ c.stackMap = none) ∧
      AllocFailsFirst c.pages (rounds (image file c)))

/-- **When `spawn` cleans up**: with `UTEMP` unmapped before, a negative return leaves what was
held exactly if `open` or the header test failed, or only a page for a segment could not be
allocated. -/
theorem spawn_cleans_up_iff (file : List Byte) (argv : List (List Byte)) (c : SpawnCalls)
    (hs : s.utemp = false) :
    (∀ r s', spawnExits file argv c s = (.error r, s') → s' = s) ↔ CleansUp file argv c :=
  spawnWith_iff hs (initStack_held argv c) fun _ ht => mapRounds_held ht _

end

/-- Only allocating a page for a segment may fail. -/
def callsWith (e : Option Word) : SpawnCalls :=
  ⟨.ok 0, .ok 1, none, none, fun _ _ => ⟨e, none, none⟩, fun _ => 0#8⟩

theorem allocFailsFirst_all : ∀ xs, AllocFailsFirst (callsWith (some (-E_NO_MEM))).pages xs
  | [] => trivial
  | _ :: _ => Or.inl (by simp [callsWith])

theorem spawn_cleans_up_long : ∃ s',
    spawnExits longImage [] (callsWith (some (-E_NO_MEM))) ⟨[], false, []⟩
      = (.error (-E_NO_MEM), s') ∧ s' = ⟨[], false, []⟩ := by
  have hrun : spawnExits longImage [] (callsWith (some (-E_NO_MEM))) ⟨[], false, []⟩
      = (.error (-E_NO_MEM), ⟨[], false, []⟩) := by decide +kernel
  have hclean : CleansUp longImage [] (callsWith (some (-E_NO_MEM))) := by
    unfold CleansUp
    generalize rounds (image longImage (callsWith (some (-E_NO_MEM)))) = xs
    exact Or.inr (Or.inr ⟨⟨1, rfl⟩, ⟨by decide, rfl, rfl⟩, allocFailsFirst_all xs⟩)
  exact ⟨_, hrun, (spawn_cleans_up_iff longImage [] (callsWith (some (-E_NO_MEM)))
    (s := ⟨[], false, []⟩) rfl).mpr hclean (-E_NO_MEM) ⟨[], false, []⟩ hrun⟩

/-- Arguments too long for the stack page: the file and the child stay. -/
theorem spawn_leaves_child :
    spawnExits longImage [List.replicate 4096 1#8] (callsWith none) ⟨[], false, []⟩
      = (.error (-E_NO_MEM), ⟨[0], false, [1]⟩) := by
  decide +kernel

end Jos.Loader

/-
  Jos.Kern.Mmu — **ADDRESSES AND PAGE-TABLE ENTRIES** (`inc/mmu.h`, `inc/memlayout.h`,
  `inc/types.h`).

  Machine words are `BitVec 32`.  A linear address splits into a page
  directory index, a page table index and an offset; an entry of either level
  is a page number in its upper 20 bits and flags in its lower 12.  A
  `struct PageInfo *` is the index of its element in `pages`, so a physical
  page is a page number `p`, its address `page2pa p`.

  The lemmas say that packing a page number with flags and taking it apart
  again are inverse, and that or-ing flags into an entry keeps its page.
-/
import Mathlib.Tactic

namespace Jos

variable {d p t : Nat} {perm x : Word}

/-- `uint32_t`, `uintptr_t`, `physaddr_t`, `pte_t`, `pde_t`. -/
abbrev Word := BitVec 32

/-! ## §1. Constants. -/

def PTE_P : Word := 0x001#32
def PTE_W : Word := 0x002#32
def PTE_U : Word := 0x004#32
def PTE_PWT : Word := 0x008#32
def PTE_PCD : Word := 0x010#32
def PTE_AVAIL : Word := 0xE00#32
def PTE_SYSCALL : Word := PTE_AVAIL ||| PTE_P ||| PTE_W ||| PTE_U

def PGSIZE : Word := 4096#32
def NPTENTRIES : Nat := 1024
def PTSIZE : Word := 0x400000#32

def KERNBASE : Word := 0xF0000000#32
def KSTACKTOP : Word := KERNBASE
def MMIOLIM : Word := KSTACKTOP - PTSIZE
def MMIOBASE : Word := MMIOLIM - PTSIZE
def ULIM : Word := MMIOBASE
def UVPT : Word := ULIM - PTSIZE
def UPAGES : Word := UVPT - PTSIZE
def UENVS : Word := UPAGES - PTSIZE
def UTOP : Word := UENVS
def UXSTACKTOP : Word := UTOP
def USTACKTOP : Word := UTOP - 2#32 * PGSIZE

def KSTKSIZE : Word := 8#32 * PGSIZE
def KSTKGAP : Word := 8#32 * PGSIZE

/-- `IOPHYSMEM / PGSIZE` and `EXTPHYSMEM / PGSIZE`. -/
def IOPHYSMEM_PAGE : Nat := 160
def EXTPHYSMEM_PAGE : Nat := 256
/-- `MPENTRY_PADDR / PGSIZE`. -/
def MPENTRY_PAGE : Nat := 7

def FL_TF : Word := 0x100#32
def FL_IF : Word := 0x200#32
def FL_IOPL_MASK : Word := 0x3000#32
def FL_IOPL_3 : Word := 0x3000#32

def GD_KT : BitVec 16 := 0x08#16
def GD_UT : BitVec 16 := 0x18#16
def GD_UD : BitVec 16 := 0x20#16

/-- Error codes are returned negated, in two's complement. -/
def E_BAD_ENV : Word := 2#32
def E_INVAL : Word := 3#32
def E_NO_MEM : Word := 4#32
def E_NO_FREE_ENV : Word := 5#32
def E_FAULT : Word := 6#32
def E_IPC_NOT_RECV : Word := 7#32
def E_E1000_TXBUF_FULL : Word := 16#32
def E_E1000_RXBUF_EMPTY : Word := 17#32

/-! ## §2. Splitting addresses. -/

/-- `PDX(la)`: page directory index. -/
def pdx (la : Word) : Nat := ((la >>> 22) &&& 0x3FF#32).toNat

/-- `PTX(la)`: page table index. -/
def ptx (la : Word) : Nat := ((la >>> 12) &&& 0x3FF#32).toNat

/-- `PGOFF(la)`: offset in the page. -/
def pgoff (la : Word) : Nat := (la &&& 0xFFF#32).toNat

/-- `PGNUM(la)`: page number field of an address. -/
def pgnum (la : Word) : Nat := (la >>> 12).toNat

/-- `PGADDR(d, t, o)`: the linear address with these indices and offset. -/
def pgaddr (d t o : Nat) : Word :=
  (BitVec.ofNat 32 d <<< 22) ||| (BitVec.ofNat 32 t <<< 12) ||| BitVec.ofNat 32 o

/-- `ROUNDDOWN(a, PGSIZE)`. -/
def rounddown (a : Word) : Word := a - a % PGSIZE

/-- `ROUNDUP(a, PGSIZE)`; the addition wraps at 2^32. -/
def roundup (a : Word) : Word := rounddown (a + PGSIZE - 1#32)

/-- The number of page directory entries below `UTOP`, `PDX(UTOP)`. -/
def NPDUSER : Nat := 955

theorem toNat_ofNat_lt {w n : Nat} (h : n < 2 ^ w) : (BitVec.ofNat w n).toNat = n := by
  rw [BitVec.toNat_ofNat, Nat.mod_eq_of_lt h]

section
variable (la : Word)
include la

theorem pdx_eq : pdx la = la.toNat / 2 ^ 22 := by
  have h := la.isLt
  simp only [pdx, BitVec.toNat_and, BitVec.toNat_ushiftRight, Nat.shiftRight_eq_div_pow,
    BitVec.toNat_ofNat]
  rw [show (1023 % 2 ^ 32 : Nat) = 2 ^ 10 - 1 from rfl, Nat.and_two_pow_sub_one_eq_mod]
  omega

theorem ptx_eq : ptx la = la.toNat / 2 ^ 12 % 1024 := by
  simp only [ptx, BitVec.toNat_and, BitVec.toNat_ushiftRight, Nat.shiftRight_eq_div_pow,
    BitVec.toNat_ofNat]
  rw [show (1023 % 2 ^ 32 : Nat) = 2 ^ 10 - 1 from rfl, Nat.and_two_pow_sub_one_eq_mod]

theorem pgnum_eq : pgnum la = la.toNat / 2 ^ 12 := by
  simp [pgnum, Nat.shiftRight_eq_div_pow]

theorem pgoff_eq : pgoff la = la.toNat % 4096 := by
  simp only [pgoff, BitVec.toNat_and, BitVec.toNat_ofNat]
  rw [show (4095 % 2 ^ 32 : Nat) = 2 ^ 12 - 1 from rfl, Nat.and_two_pow_sub_one_eq_mod]

theorem pdx_lt : pdx la < 1024 := by
  have := la.isLt
  rw [pdx_eq]
  omega

theorem ptx_lt : ptx la < 1024 := by
  rw [ptx_eq]
  omega

end

/-- Addresses below `UTOP` use the user part of a page directory, and only
they do. -/
theorem pdx_lt_user_iff (va : Word) : pdx va < NPDUSER ↔ va < UTOP := by
  have hlt : va < UTOP ↔ va.toNat < UTOP.toNat := BitVec.lt_def
  rw [hlt, pdx_eq, show UTOP.toNat = 955 * 2 ^ 22 by decide]
  unfold NPDUSER
  omega

theorem pgaddr_toNat (hd : d < 1024) (ht : t < 1024) :
    (pgaddr d t 0).toNat = d * 2 ^ 22 + t * 2 ^ 12 := by
  have hor : ∀ x y : Nat, y < 2 ^ 22 → (x <<< 22) ||| y = x * 2 ^ 22 + y := by
    intro x y hy
    rw [← Nat.shiftLeft_add_eq_or_of_lt hy, Nat.shiftLeft_eq]
  simp only [pgaddr, BitVec.toNat_or, BitVec.toNat_shiftLeft, BitVec.toNat_ofNat,
    Nat.shiftLeft_eq, Nat.or_zero, Nat.zero_mod]
  rw [Nat.mod_eq_of_lt (by omega : d < 2 ^ 32), Nat.mod_eq_of_lt (by omega : t < 2 ^ 32),
    Nat.mod_eq_of_lt (by omega : d * 2 ^ 22 < 2 ^ 32),
    Nat.mod_eq_of_lt (by omega : t * 2 ^ 12 < 2 ^ 32)]
  have h := hor d (t * 2 ^ 12) (by omega)
  rw [Nat.shiftLeft_eq] at h
  exact h

theorem pdx_pgaddr (hd : d < 1024) (ht : t < 1024) : pdx (pgaddr d t 0) = d := by
  rw [pdx_eq, pgaddr_toNat hd ht]
  omega

theorem ptx_pgaddr (hd : d < 1024) (ht : t < 1024) : ptx (pgaddr d t 0) = t := by
  rw [ptx_eq, pgaddr_toNat hd ht]
  omega

theorem rounddown_toNat (a : Word) : (rounddown a).toNat = a.toNat / 4096 * 4096 := by
  have ha := a.isLt
  have hmod : (a % PGSIZE).toNat = a.toNat % 4096 := by
    simp [PGSIZE, BitVec.toNat_umod]
  unfold rounddown
  rw [BitVec.toNat_sub_of_le (by rw [BitVec.le_def, hmod]; omega), hmod]
  omega

theorem roundup_toNat (a : Word) : (roundup a).toNat = (a.toNat + 4095) % 2 ^ 32 / 4096 * 4096 := by
  have h : (a + PGSIZE - 1#32).toNat = (a.toNat + 4095) % 2 ^ 32 := by
    rw [show a + PGSIZE - 1#32 = a + 4095#32 by unfold PGSIZE; grind]
    simp [BitVec.toNat_add]
  unfold roundup
  rw [rounddown_toNat, h]

theorem roundup_eq_self_iff {a : Word} (ha : a < UTOP) : roundup a = a ↔ a.toNat % 4096 = 0 := by
  have hlt : a.toNat < 955 * 2 ^ 22 := BitVec.lt_def.mp ha
  rw [← BitVec.toNat_inj, roundup_toNat]
  omega

/-! ## §3. Entries. -/

/-- `entry & PTE_P`. -/
def present (w : Word) : Bool := w &&& PTE_P != 0#32

/-- `PTE_ADDR(pte)`. -/
def pteAddr (w : Word) : Word := w &&& ~~~0xFFF#32

/-- The low 12 bits of an entry. -/
def pteFlags (w : Word) : Word := w &&& 0xFFF#32

/-- The page an entry points to, `PGNUM(PTE_ADDR(pte))`. -/
def ptePage (w : Word) : Nat := pgnum (pteAddr w)

/-- `page2pa(pp)`. -/
def page2pa (p : Nat) : Word := BitVec.ofNat 32 p <<< 12

/-- `perm` has no bit outside the flags a system call may set. -/
def permOk (perm : Word) : Bool := perm &&& ~~~PTE_SYSCALL == 0#32

/-- A word with no bit outside the mask `m` is unchanged by masking. -/
theorem and_mask_of_and_not {x m : Word} (h : x &&& ~~~m = 0#32) : x &&& m = x := by
  calc x &&& m = (x &&& m) ||| (x &&& ~~~m) := by rw [h]; simp
    _ = x &&& (m ||| ~~~m) := BitVec.and_or_distrib_left.symm
    _ = x := by rw [BitVec.or_not_self, BitVec.and_allOnes]

theorem toNat_lt_of_flags (h : x &&& ~~~0xFFF#32 = 0#32) : x.toNat < 4096 := by
  rw [← and_mask_of_and_not h, BitVec.toNat_and]
  exact Nat.lt_of_le_of_lt Nat.and_le_right (by decide)

theorem permOk_flags (h : permOk perm = true) : perm &&& ~~~0xFFF#32 = 0#32 := by
  have hmask : perm &&& PTE_SYSCALL = perm := and_mask_of_and_not (by simpa [permOk] using h)
  rw [← hmask, BitVec.and_assoc, show PTE_SYSCALL &&& ~~~0xFFF#32 = 0#32 by decide]
  simp

theorem ushiftRight_flags (h : x &&& ~~~0xFFF#32 = 0#32) : x >>> 12 = 0#32 := by
  have hx := toNat_lt_of_flags h
  apply BitVec.eq_of_toNat_eq
  rw [BitVec.toNat_ushiftRight, Nat.shiftRight_eq_div_pow]
  show x.toNat / 4096 = 0
  omega

theorem ptePage_eq (w : Word) : ptePage w = (w >>> 12).toNat := by
  have h : pteAddr w >>> 12 = w >>> 12 := by
    unfold pteAddr
    rw [BitVec.ushiftRight_and_distrib]
    apply BitVec.eq_of_toNat_eq
    have hw := w.isLt
    rw [BitVec.toNat_and, BitVec.toNat_ushiftRight, Nat.shiftRight_eq_div_pow]
    show w.toNat / 4096 &&& (2 ^ 20 - 1) = _
    rw [Nat.and_two_pow_sub_one_eq_mod]
    omega
  unfold ptePage pgnum
  rw [h]

/-- The kernel turns an entry into its page as `pa2page(PTE_ADDR(pte))`. -/
theorem pgnum_pteAddr (w : Word) : pgnum (pteAddr w) = ptePage w := rfl

theorem pgnum_page2pa (hp : p < 2 ^ 20) : pgnum (page2pa p) = p := by
  simp only [pgnum, page2pa, BitVec.toNat_ushiftRight, BitVec.toNat_shiftLeft,
    BitVec.toNat_ofNat, Nat.shiftRight_eq_div_pow, Nat.shiftLeft_eq]
  omega

theorem ushiftRight_page2pa (hp : p < 2 ^ 20) : page2pa p >>> 12 = BitVec.ofNat 32 p := by
  apply BitVec.eq_of_toNat_eq
  rw [show (page2pa p >>> 12).toNat = p from pgnum_page2pa hp, BitVec.toNat_ofNat]
  omega

/-- Or-ing flags into an entry keeps its page. -/
theorem ptePage_or {w x : Word} (h : x &&& ~~~0xFFF#32 = 0#32) : ptePage (w ||| x) = ptePage w := by
  rw [ptePage_eq, ptePage_eq, BitVec.ushiftRight_or_distrib, ushiftRight_flags h]
  simp

theorem ptePage_page2pa (hp : p < 2 ^ 20) : ptePage (page2pa p) = p := by
  rw [ptePage_eq, ushiftRight_page2pa hp, BitVec.toNat_ofNat]
  omega

/-- The entry `page2pa(pp) | perm | PTE_P` points to `pp`. -/
theorem ptePage_mk (hp : p < 2 ^ 20) (h : perm &&& ~~~0xFFF#32 = 0#32) :
    ptePage (page2pa p ||| perm ||| PTE_P) = p := by
  rw [ptePage_or (by decide), ptePage_or h, ptePage_page2pa hp]

theorem present_eq (w : Word) : present w = w.getLsbD 0 := by
  unfold present PTE_P
  rw [BitVec.and_one_eq_setWidth_ofBool_getLsbD]
  cases w.getLsbD 0 <;> decide

theorem present_or_P (w : Word) : present (w ||| PTE_P) = true := by
  rw [present_eq, BitVec.getLsbD_or, show PTE_P.getLsbD 0 = true by decide]
  simp

theorem present_or {w x : Word} (h : present w = true) : present (w ||| x) = true := by
  rw [present_eq] at h ⊢
  rw [BitVec.getLsbD_or, h]
  simp

theorem not_present_zero : present 0#32 = false := by decide

/-- The flags of the entry `page2pa(pp) | perm | PTE_P`. -/
theorem pteFlags_mk (p : Nat) (h : perm &&& ~~~0xFFF#32 = 0#32) :
    pteFlags (page2pa p ||| perm ||| PTE_P) = perm ||| PTE_P := by
  have hlow : page2pa p &&& 0xFFF#32 = 0#32 := by
    apply BitVec.eq_of_toNat_eq
    show (page2pa p).toNat &&& (2 ^ 12 - 1) = 0
    rw [Nat.and_two_pow_sub_one_eq_mod]
    simp only [page2pa, BitVec.toNat_shiftLeft, BitVec.toNat_ofNat, Nat.shiftLeft_eq]
    omega
  have hperm : perm &&& 0xFFF#32 = perm := and_mask_of_and_not h
  have hP : PTE_P &&& 0xFFF#32 = PTE_P := by decide
  unfold pteFlags
  rw [BitVec.and_comm, BitVec.and_or_distrib_left, BitVec.and_or_distrib_left,
    BitVec.and_comm (0xFFF#32) (page2pa p), BitVec.and_comm (0xFFF#32) perm,
    BitVec.and_comm (0xFFF#32) PTE_P, hlow, hperm, hP]
  simp

end Jos

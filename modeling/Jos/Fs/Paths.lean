/-
  Jos.Fs.Paths — **PATH RESOLUTION** (`walk_path` in `fs/fs.c`).

  What a path means is said over the list of its components, the longest pieces
  without a slash, and over the names of directory entries: `Descends` goes down
  from a directory to its child, component by component, and `Outcome` lists the
  ways the walk can end.  In good directories with distinct names there is one
  outcome, and it is what `walk_path` returns.

  `walkPathBuf` is `walk_path` once more, with the arrays `name` and `lastelem`,
  in which a store past the end is an error.  It returns the same.
-/
import Jos.Fs.DirSize

namespace Jos

open Exec
open Function (update update_of_ne update_self)

variable {f x : FileP} {name path : List Byte} {dir : Option FileP} {w : PathWalk}

variable {d : Disk} {g : FileP}

/-! ## §1. Components and names. -/

/-- The longest pieces of a path that have no slash. -/
def components (path : List Byte) : List (List Byte) :=
  (path.splitOn slash).filter (· ≠ [])

/-- The string at address `a`, of `n` bytes at most. -/
def cstr (d : Disk) : Nat → Nat → List Byte
  | _, 0 => []
  | a, n + 1 => if byteAt d a = 0#8 then [] else byteAt d a :: cstr d (a + 1) n

/-- The name in a record. -/
def nameOf (d : Disk) (x : FileP) : List Byte := cstr d x.fName MAXNAMELEN

/-- The records in the blocks of a directory. -/
def entriesOf (d : Disk) (dir : FileP) : Set FileP := fun x =>
  ∃ n < fileBlocks d dir, x ∈ recordsOf (slotVal d (fileSlot dir n)).toNat

/-- `x` is called `name` in the directory `dir`; a name ends within its array. -/
def Child (d : Disk) (dir : FileP) (name : List Byte) (x : FileP) : Prop :=
  x ∈ entriesOf d dir ∧ nameOf d x = name ∧ name.length < MAXNAMELEN

/-- No two entries of a directory have the same name, those without one apart. -/
def DistinctNames (d : Disk) : Prop :=
  ∀ dir ∈ allFiles d, fileType d dir = FTYPE_DIR → ∀ x ∈ entriesOf d dir, ∀ y ∈ entriesOf d dir,
    nameOf d x ≠ [] → nameOf d x = nameOf d y → x = y

/-- From file `f` in directory `dir` down along `comps`. -/
inductive Descends (d : Disk) : Option FileP → FileP → List (List Byte) → Option FileP → FileP →
    Prop
  | here {dir : Option FileP} {f : FileP} : Descends d dir f [] dir f
  | down {dir dir' : Option FileP} {f x f' : FileP} {c : List Byte} {cs : List (List Byte)}
      (hdir : fileType d f = FTYPE_DIR) (hx : Child d f c x)
      (hrest : Descends d (some f) x cs dir' f') : Descends d dir f (c :: cs) dir' f'

/-- There is no `c` below `f`. -/
def Unresolved (d : Disk) (f : FileP) (c : List Byte) : Prop :=
  fileType d f = FTYPE_DIR → ∀ x, ¬ Child d f c x

/-- **How a walk ends.**  All components lead to a file, or one of them, the first
such, cannot be resolved: it is too long; or it is a missing name at the end of the
path; or it is a missing name before the end, or stands below a file that is not a
directory. -/
inductive Outcome (d : Disk) (dir₀ : Option FileP) (f₀ : FileP) (comps : List (List Byte)) :
    PathWalk → Prop
  | found {dir : Option FileP} {f : FileP} (h : Descends d dir₀ f₀ comps dir f) :
      Outcome d dir₀ f₀ comps ⟨0#32, dir, some f, []⟩
  | badPath {before after : List (List Byte)} {c : List Byte} {dir : Option FileP} {f : FileP}
      (hc : comps = before ++ c :: after) (h : Descends d dir₀ f₀ before dir f)
      (hu : Unresolved d f c) (hlong : MAXNAMELEN ≤ c.length) :
      Outcome d dir₀ f₀ comps ⟨-E_BAD_PATH, none, none, []⟩
  | missing {before : List (List Byte)} {c : List Byte} {dir : Option FileP} {f : FileP}
      (hc : comps = before ++ [c]) (h : Descends d dir₀ f₀ before dir f)
      (hu : Unresolved d f c) (hlen : c.length < MAXNAMELEN) (hdir : fileType d f = FTYPE_DIR) :
      Outcome d dir₀ f₀ comps ⟨-E_NOT_FOUND, some f, none, c⟩
  | notFound {before after : List (List Byte)} {c : List Byte} {dir : Option FileP} {f : FileP}
      (hc : comps = before ++ c :: after) (h : Descends d dir₀ f₀ before dir f)
      (hu : Unresolved d f c) (hlen : c.length < MAXNAMELEN)
      (hwhere : fileType d f ≠ FTYPE_DIR ∨ after ≠ []) :
      Outcome d dir₀ f₀ comps ⟨-E_NOT_FOUND, none, none, []⟩

/-! ## §2. The components a round of the loop takes. -/

theorem components_slash (path : List Byte) : components (slash :: path) = components path := by
  unfold components List.splitOn
  rw [List.splitOnP_cons_eq_if_modifyHead, if_pos (by simp), List.filter_cons_of_neg (by simp)]

theorem components_skipSlash (path : List Byte) : components (skipSlash path) = components path :=
    by
  induction path with
  | nil => rfl
  | cons c cs ih =>
    unfold skipSlash at ih ⊢
    by_cases hc : c = slash
    · rw [List.dropWhile_cons_of_pos (by simpa using hc), ih, hc, components_slash]
    · rw [List.dropWhile_cons_of_neg (by simpa using hc)]

theorem skipSlash_head (path : List Byte) : (skipSlash path).head? ≠ some slash := by
  intro h
  have := List.head?_dropWhile_not (fun x : Byte => decide (x = slash)) path
  unfold skipSlash at h
  rw [h] at this
  simp at this

/-- The first component, and the rest behind the slashes. -/
theorem components_cons {c : Byte} {cs : List Byte} (hc : c ≠ slash) :
    components (c :: cs) = (c :: cs).takeWhile (· ≠ slash)
      :: components (skipSlash ((c :: cs).dropWhile (· ≠ slash))) := by
  have hfree : ∀ x ∈ (c :: cs).takeWhile (· ≠ slash), (x == slash) = false := by
    intro x hx
    simpa using List.all_eq_true.mp (List.all_takeWhile (p := (· ≠ slash)) (l := c :: cs)) x hx
  have hne : (c :: cs).takeWhile (· ≠ slash) ≠ [] := by
    rw [List.takeWhile_cons_of_pos (by simpa using hc)]
    exact List.cons_ne_nil _ _
  rw [components_skipSlash]
  conv => lhs; rw [← List.takeWhile_append_dropWhile (p := (· ≠ slash)) (l := c :: cs)]
  generalize (c :: cs).takeWhile (· ≠ slash) = name at hfree hne ⊢
  have hhead := List.head?_dropWhile_not (fun x : Byte => decide (x ≠ slash)) (c :: cs)
  generalize (c :: cs).dropWhile (· ≠ slash) = rest at hhead ⊢
  cases rest with
  | nil =>
    unfold components List.splitOn
    rw [List.append_nil, List.splitOnP_eq_singleton hfree, List.filter_cons_of_pos
      (by simpa using hne)]
    rfl
  | cons y ys =>
    have hy : y = slash := by simpa using hhead
    rw [hy, components_slash]
    unfold components List.splitOn
    rw [List.splitOnP_append_cons_of_forall_mem hfree slash (by simp),
      List.filter_cons_of_pos (by simpa using hne)]

/-! ## §3. `dir_lookup`. -/

/-- **`strcmp`** with the string at `a`. -/
theorem strcmp_cstr (xs : List Byte) : ∀ (a n : Nat), xs.length < n → 0#8 ∉ xs →
    strcmp a xs d = .ok (decide (cstr d a n = xs)) d := by
  induction xs with
  | nil =>
    intro a n hn _
    obtain ⟨n, rfl⟩ : ∃ m, n = m + 1 := ⟨n - 1, by simp at hn; omega⟩
    unfold strcmp cstr
    rw [bind_ok (show diskByte a d = .ok (byteAt d a) d from rfl)]
    by_cases h0 : byteAt d a = 0#8
    · rw [if_pos h0, h0]
      rfl
    · rw [if_neg h0]
      show EStateM.Result.ok (decide (byteAt d a = 0#8)) d = _
      simp [h0]
  | cons x xs ih =>
    intro a n hn hx
    obtain ⟨n, rfl⟩ : ∃ m, n = m + 1 := ⟨n - 1, by simp at hn; omega⟩
    have hx0 : x ≠ 0#8 := fun he => hx (by simp [he])
    unfold strcmp cstr
    rw [bind_ok (show diskByte a d = .ok (byteAt d a) d from rfl)]
    by_cases he : byteAt d a = x
    · rw [if_pos he, if_neg (by rw [he]; exact hx0), he,
        ih (a + 1) n (by simpa using hn) (fun hm => hx (by simp [hm]))]
      simp
    · rw [if_neg he]
      by_cases h0 : byteAt d a = 0#8
      · rw [if_pos h0]
        simp
        rfl
      · rw [if_neg h0]
        simp [he]
        rfl

section

variable {test : FileP → FsM Bool} {p : FileP → Prop} [DecidablePred p]
  (htest : ∀ x, test x d = .ok (decide (p x)) d)

include htest

/-- The scan of a block finds an entry that passes, if there is one. -/
theorem scanBlock_exact (b n : Nat) : ∀ j, j + n ≤ 16 →
    (∃ x ∈ recordsOf b, p x ∧ scanBlock test b n j d = .ok (some x) d) ∨
    (scanBlock test b n j d = .ok none d ∧ ∀ k, j ≤ k → k < j + n → ¬ p ⟨b, 64 * k⟩) := by
  induction n with
  | zero => exact fun j _ => Or.inr ⟨rfl, fun k h1 h2 => absurd h1 (by omega)⟩
  | succ n ih =>
    intro j hj
    unfold scanBlock
    rw [bind_ok (htest ⟨b, 64 * j⟩)]
    by_cases hp : p ⟨b, 64 * j⟩
    · left
      refine ⟨⟨b, 64 * j⟩, ⟨j, by omega, rfl⟩, hp, ?_⟩
      rw [if_pos (by simpa using hp)]
      rfl
    · rw [if_neg (by simpa using hp)]
      rcases ih (j + 1) (by omega) with hfound | ⟨hrun, hnone⟩
      · exact Or.inl hfound
      · refine Or.inr ⟨hrun, fun k h1 h2 => ?_⟩
        by_cases hk : k = j
        · rw [hk]
          exact hp
        · exact hnone k (by omega) (by omega)

theorem scanDir_exact (h : DirOk d) (hg : g ∈ allFiles d) (hdir : fileType d g = FTYPE_DIR)
    (n : Nat) :
    ∀ i, i + n = fileBlocks d g →
      (∃ x ∈ entriesOf d g, p x ∧ scanDir test g n i d = .ok (.ok (some x)) d) ∨
      (scanDir test g n i d = .ok (.ok none) d ∧
        ∀ m, i ≤ m → m < fileBlocks d g → ∀ x ∈ recordsOf (slotVal d (fileSlot g m)).toNat,
          ¬ p x) := by
  induction n with
  | zero => exact fun i hi => Or.inr ⟨rfl, fun m h1 h2 => absurd h1 (by omega)⟩
  | succ n ih =>
    intro i hi
    unfold scanDir
    rw [bind_ok (h.getBlock hg hdir (show i < fileBlocks d g by omega))]
    dsimp only
    rcases scanBlock_exact htest (slotVal d (fileSlot g i)).toNat BLKFILES 0 (by decide) with
      ⟨x, hx, hp, hrun⟩ | ⟨hrun, hnone⟩
    · left
      refine ⟨x, ⟨i, by omega, hx⟩, hp, ?_⟩
      rw [bind_ok hrun]
      rfl
    · rw [bind_ok hrun]
      rcases ih (i + 1) (by omega) with hfound | ⟨hrest, hlater⟩
      · exact Or.inl hfound
      · refine Or.inr ⟨hrest, fun m h1 h2 x hx => ?_⟩
        by_cases hm : m = i
        · obtain ⟨k, hk, rfl⟩ := hx
          rw [hm]
          exact hnone k (Nat.zero_le k) (by show k < 0 + 16; omega)
        · exact hlater m (by omega) h2 x hx

end

/-- **`dir_lookup`** returns the child of that name, or that there is none. -/
theorem dirLookup_exact (h : DirOk d) (hg : g ∈ allFiles d) (hdir : fileType d g = FTYPE_DIR)
    (hname : name.length < MAXNAMELEN) (h0 : 0#8 ∉ name) :
    (∃ x, Child d g name x ∧ dirLookup g name d = .ok (.ok x) d) ∨
    (dirLookup g name d = .ok (.error (-E_NOT_FOUND)) d ∧ ∀ x, ¬ Child d g name x) := by
  have htest : ∀ x : FileP, strcmp x.fName name d = .ok (decide (nameOf d x = name)) d :=
    fun x => strcmp_cstr name x.fName MAXNAMELEN hname h0
  unfold dirLookup
  rw [bind_ok (dirNblock_ok h hg hdir)]
  rcases scanDir_exact htest h hg hdir (fileBlocks d g) 0 (Nat.zero_add _) with
    ⟨x, hx, hp, hrun⟩ | ⟨hrun, hnone⟩
  · left
    refine ⟨x, ⟨hx, hp, hname⟩, ?_⟩
    rw [bind_ok hrun]
    rfl
  · right
    rw [bind_ok hrun]
    refine ⟨rfl, ?_⟩
    rintro x ⟨⟨m, hm, hx⟩, hp, -⟩
    exact hnone m (Nat.zero_le m) hm x hx hp

theorem Child.mem (h : DirOk d) (hg : g ∈ allFiles d) (hdir : fileType d g = FTYPE_DIR)
    (hx : Child d g name x) : x ∈ allFiles d := by
  obtain ⟨⟨n, hn, hin⟩, -⟩ := hx
  exact recordsOf_subset hg hdir (h.inv.block_lt hg hn) (h.full g hg hdir n hn) hin

/-! ## §4. The arrays `name` and `lastelem`. -/

/-- A `char` array of `MAXNAMELEN` bytes. -/
abbrev NameBuf := Nat → Byte

/-- `buf[i] = c`. -/
def putChar (buf : NameBuf) (i : Nat) (c : Byte) : FsM NameBuf :=
  if i < MAXNAMELEN then return update buf i c else throw "store past the end"

/-- `memmove(buf + i, xs, …)`. -/
def memmoveName (buf : NameBuf) : Nat → List Byte → FsM NameBuf
  | _, [] => return buf
  | i, x :: xs => do
      let buf ← putChar buf i x
      memmoveName buf (i + 1) xs

/-- The string in an array, from byte `i` on. -/
def strFrom (buf : NameBuf) : Nat → Nat → List Byte
  | _, 0 => []
  | i, n + 1 => if buf i = 0#8 then [] else buf i :: strFrom buf (i + 1) n

def strOf (buf : NameBuf) : List Byte := strFrom buf 0 MAXNAMELEN

/-- `strcpy(dst + i, src + i)`, with `n` bytes of `src` left. -/
def strcpyName (src : NameBuf) : Nat → Nat → NameBuf → FsM NameBuf
  | 0, _, _ => throw "load past the end"
  | n + 1, i, dst => do
      let dst ← putChar dst i (src i)
      if src i = 0#8 then return dst else strcpyName src n (i + 1) dst

/-- The loop of `walk_path`, with its arrays. -/
def walkPathBufFrom (dir : Option FileP) (f : FileP) (path : List Byte) (name lastelem : NameBuf) :
    FsM PathWalk :=
  match path with
  | [] => return ⟨0#32, dir, some f, []⟩
  | c :: cs => do
      let p := (c :: cs).takeWhile (· ≠ slash)
      if MAXNAMELEN ≤ p.length then
        return ⟨-E_BAD_PATH, none, none, []⟩
      else
        let name ← memmoveName name 0 p
        let name ← putChar name p.length 0#8
        let rest := skipSlash ((c :: cs).dropWhile (· ≠ slash))
        let type ← load f.blk f.fType
        if type ≠ FTYPE_DIR then
          return ⟨-E_NOT_FOUND, none, none, []⟩
        else
          match ← dirLookup f (strOf name) with
          | .error r =>
            if r = -E_NOT_FOUND ∧ rest = [] then
              let lastelem ← strcpyName name MAXNAMELEN 0 lastelem
              return ⟨r, some f, none, strOf lastelem⟩
            else
              return ⟨r, none, none, []⟩
          | .ok f' => walkPathBufFrom (some f) f' rest name lastelem
termination_by path.length
decreasing_by exact length_rest c cs

/-- `walk_path` with its array `name` and the caller's `lastelem`, whatever they hold. -/
def walkPathBuf (path : List Byte) (name lastelem : NameBuf) : FsM PathWalk := do
  let name ← putChar name 0 0#8
  walkPathBufFrom none sRoot (skipSlash path) name lastelem

/-- The array has the string `xs` from byte `i` on. -/
def HasStr (buf : NameBuf) (i : Nat) (xs : List Byte) : Prop :=
  (∀ k (h : k < xs.length), buf (i + k) = xs[k]) ∧ buf (i + xs.length) = 0#8

theorem HasStr.head {buf : NameBuf} {i : Nat} {x : Byte} {xs : List Byte}
    (h : HasStr buf i (x :: xs)) : buf i = x ∧ HasStr buf (i + 1) xs := by
  refine ⟨h.1 0 (by simp), fun k hk => ?_, ?_⟩
  · rw [show i + 1 + k = i + (k + 1) by omega]
    exact h.1 (k + 1) (by simpa using hk)
  · have hend := h.2
    rw [show i + 1 + xs.length = i + (xs.length + 1) by omega]
    exact hend

theorem strFrom_eq {buf : NameBuf} (xs : List Byte) : ∀ (i n : Nat), xs.length < n → 0#8 ∉ xs →
    HasStr buf i xs → strFrom buf i n = xs := by
  induction xs with
  | nil =>
    intro i n hn _ h
    obtain ⟨n, rfl⟩ : ∃ m, n = m + 1 := ⟨n - 1, by omega⟩
    unfold strFrom
    rw [if_pos (show buf i = 0#8 from h.2)]
  | cons x xs ih =>
    intro i n hn h0 h
    obtain ⟨n, rfl⟩ : ∃ m, n = m + 1 := ⟨n - 1, by omega⟩
    obtain ⟨hx, hxs⟩ := h.head
    have hx0 : x ≠ 0#8 := fun he => h0 (by simp [he])
    unfold strFrom
    rw [hx, if_neg hx0, ih (i + 1) n (by simpa using hn) (fun hm => h0 (by simp [hm])) hxs]

theorem putChar_ok {i : Nat} (hi : i < MAXNAMELEN) (buf : NameBuf) (c : Byte) (d : Disk) :
    putChar buf i c d = .ok (update buf i c) d := by
  unfold putChar
  rw [if_pos hi]
  rfl

theorem memmoveName_ok (xs : List Byte) : ∀ (i : Nat) (buf : NameBuf), i + xs.length ≤ MAXNAMELEN →
    ∃ buf', memmoveName buf i xs d = .ok buf' d ∧
      (∀ k (h : k < xs.length), buf' (i + k) = xs[k]) ∧ ∀ j < i, buf' j = buf j := by
  induction xs with
  | nil => exact fun i buf _ =>
    ⟨buf, rfl, fun k hk => absurd hk (Nat.not_lt_zero k), fun _ _ => rfl⟩
  | cons x xs ih =>
    intro i buf hi
    rw [List.length_cons] at hi
    obtain ⟨buf', hrun, hput, hkeep⟩ := ih (i + 1) (update buf i x) (by omega)
    unfold memmoveName
    rw [bind_ok (putChar_ok (by omega) buf x d)]
    refine ⟨buf', hrun, fun k hk => ?_, fun j hj => ?_⟩
    · cases k with
      | zero =>
        rw [Nat.add_zero, hkeep i (Nat.lt_succ_self i), update_self]
        rfl
      | succ k =>
        rw [show i + (k + 1) = i + 1 + k by omega]
        exact hput k (by simpa using hk)
    · rw [hkeep j (by omega), update_of_ne (by omega)]

/-- A component that is not too long goes into the array with its NUL. -/
theorem name_stored (xs : List Byte) (hlen : xs.length < MAXNAMELEN) (buf : NameBuf) :
    ∃ moved, memmoveName buf 0 xs d = .ok moved d ∧
      putChar moved xs.length 0#8 d = .ok (update moved xs.length 0#8) d ∧
      HasStr (update moved xs.length 0#8) 0 xs := by
  obtain ⟨moved, hrun, hput, -⟩ := memmoveName_ok (d := d) xs 0 buf (by omega)
  refine ⟨moved, hrun, putChar_ok hlen moved 0#8 d, fun k hk => ?_, ?_⟩
  · rw [update_of_ne (by omega)]
    exact hput k hk
  · rw [Nat.zero_add, update_self]

theorem strcpyName_ok {src : NameBuf} (xs : List Byte) : ∀ (i n : Nat) (dst : NameBuf),
    xs.length < n → i + n ≤ MAXNAMELEN → 0#8 ∉ xs → HasStr src i xs →
    ∃ dst', strcpyName src n i dst d = .ok dst' d ∧ HasStr dst' i xs ∧ ∀ j < i, dst' j = dst j := by
  induction xs with
  | nil =>
    intro i n dst hn hi _ h
    obtain ⟨n, rfl⟩ : ∃ m, n = m + 1 := ⟨n - 1, by omega⟩
    have hnul : src i = 0#8 := h.2
    unfold strcpyName
    rw [bind_ok (putChar_ok (by omega) dst _ d), if_pos hnul]
    refine ⟨_, rfl, ⟨fun k hk => absurd hk (Nat.not_lt_zero k), ?_⟩, fun j hj => ?_⟩
    · show update dst i (src i) i = 0#8
      rw [update_self, hnul]
    · rw [update_of_ne (by omega)]
  | cons x xs ih =>
    intro i n dst hn hi h0 h
    obtain ⟨n, rfl⟩ : ∃ m, n = m + 1 := ⟨n - 1, by omega⟩
    obtain ⟨hx, hxs⟩ := h.head
    have hx0 : x ≠ 0#8 := fun he => h0 (by simp [he])
    obtain ⟨dst', hrun, hstr, hkeep⟩ := ih (i + 1) n (update dst i (src i))
      (by simpa using hn) (by omega) (fun hm => h0 (by simp [hm])) hxs
    unfold strcpyName
    rw [bind_ok (putChar_ok (by omega) dst _ d), if_neg (by rw [hx]; exact hx0)]
    refine ⟨dst', hrun, ⟨fun k hk => ?_, ?_⟩, fun j hj => ?_⟩
    · cases k with
      | zero =>
        rw [Nat.add_zero, hkeep i (Nat.lt_succ_self i), update_self, hx]
        rfl
      | succ k =>
        rw [show i + (k + 1) = i + 1 + k by omega]
        exact hstr.1 k (by simpa using hk)
    · rw [List.length_cons, show i + (xs.length + 1) = i + 1 + xs.length by omega]
      exact hstr.2
    · rw [hkeep j (by omega), update_of_ne (by omega)]

/-- A component has no byte that the path has not. -/
theorem noNul_component (h0 : 0#8 ∉ path) :
    0#8 ∉ path.takeWhile (· ≠ slash) ∧ 0#8 ∉ skipSlash (path.dropWhile (· ≠ slash)) := by
  refine ⟨fun h => h0 ((List.takeWhile_sublist _).mem h), fun h => h0 ?_⟩
  exact (List.dropWhile_sublist _).mem ((List.dropWhile_sublist _).mem h)

/-- **No store past the arrays.**  With them the walk is the same. -/
theorem walkPathBufFrom_eq (h : DirOk d) (n : Nat) :
    ∀ (path : List Byte) (dir : Option FileP) (f : FileP) (name lastelem : NameBuf),
      path.length ≤ n → 0#8 ∉ path → f ∈ allFiles d →
      walkPathBufFrom dir f path name lastelem d = walkPathFrom dir f path d := by
  induction n with
  | zero =>
    intro path dir f name lastelem hlen _ _
    obtain rfl := List.length_eq_zero_iff.mp (Nat.le_zero.mp hlen)
    unfold walkPathBufFrom walkPathFrom
    rfl
  | succ n ih =>
    intro path dir f name lastelem hlen h0 hf
    unfold walkPathBufFrom walkPathFrom
    cases path with
    | nil => rfl
    | cons c cs =>
      have hrest := length_rest c cs
      obtain ⟨h0p, h0r⟩ := noNul_component h0
      dsimp only
      by_cases hlong : MAXNAMELEN ≤ ((c :: cs).takeWhile (· ≠ slash)).length
      · rw [if_pos hlong, if_pos hlong]
      rw [if_neg hlong, if_neg hlong]
      generalize (c :: cs).takeWhile (· ≠ slash) = p at hlong h0p ⊢
      generalize skipSlash ((c :: cs).dropWhile (· ≠ slash)) = rest at hrest h0r ⊢
      have hlt : p.length < MAXNAMELEN := by omega
      obtain ⟨moved, hmove, hput, hstr⟩ := name_stored (d := d) p hlt name
      have hname : strOf (update moved p.length 0#8) = p := strFrom_eq p 0 _ hlt h0p hstr
      rw [bind_ok hmove, bind_ok hput, bind_ok (load_ok _ _ d), bind_ok (load_ok _ _ d)]
      by_cases hdir : d f.blk f.fType ≠ FTYPE_DIR
      · rw [if_pos hdir, if_pos hdir]
      rw [if_neg hdir, if_neg hdir, hname]
      have hdf : fileType d f = FTYPE_DIR := Classical.not_not.mp hdir
      rcases dirLookup_exact h hf hdf hlt h0p with ⟨x, hx, hrun⟩ | ⟨hrun, -⟩
      · rw [bind_ok hrun, bind_ok hrun]
        refine ih rest (some f) x _ _ ?_ h0r (hx.mem h hf hdf)
        omega
      · rw [bind_ok hrun, bind_ok hrun]
        dsimp only
        by_cases hlast : -E_NOT_FOUND = -E_NOT_FOUND ∧ rest = []
        · rw [if_pos hlast, if_pos hlast]
          obtain ⟨last', hcopy, hlstr, -⟩ := strcpyName_ok (d := d) p 0 MAXNAMELEN lastelem hlt
            (by omega) h0p hstr
          have hl : strOf last' = p := strFrom_eq p 0 _ hlt h0p hlstr
          rw [bind_ok hcopy, hl]
        · rw [if_neg hlast, if_neg hlast]

theorem walkPathBuf_eq (h : DirOk d) (h0 : 0#8 ∉ path) (name lastelem : NameBuf) :
    walkPathBuf path name lastelem d = walkPath path d := by
  unfold walkPathBuf walkPath
  exact walkPathBufFrom_eq h _ _ _ _ _ _ le_rfl
    (fun hm => h0 ((List.dropWhile_sublist _).mem hm)) .root

/-! ## §5. The walk. -/

/-- One component down. -/
theorem Outcome.down {c : List Byte} {cs : List (List Byte)} (hdir : fileType d f = FTYPE_DIR)
    (hx : Child d f c x)
    (h : Outcome d (some f) x cs w) : Outcome d dir f (c :: cs) w := by
  cases h with
  | found hd => exact .found (.down hdir hx hd)
  | badPath hc hd hu hlong => exact .badPath (by rw [hc]; rfl) (.down hdir hx hd) hu hlong
  | missing hc hd hu hlen hd' => exact .missing (by rw [hc]; rfl) (.down hdir hx hd) hu hlen hd'
  | notFound hc hd hu hlen hw => exact .notFound (by rw [hc]; rfl) (.down hdir hx hd) hu hlen hw

/-- **A walk ends in an outcome.** -/
theorem walkPathFrom_outcome (h : DirOk d) (n : Nat) :
    ∀ (path : List Byte) (dir : Option FileP) (f : FileP), path.length ≤ n → 0#8 ∉ path →
      path.head? ≠ some slash → f ∈ allFiles d →
      ∃ w, walkPathFrom dir f path d = .ok w d ∧ Outcome d dir f (components path) w := by
  induction n with
  | zero =>
    intro path dir f hlen _ _ _
    obtain rfl := List.length_eq_zero_iff.mp (Nat.le_zero.mp hlen)
    unfold walkPathFrom
    exact ⟨_, rfl, .found .here⟩
  | succ n ih =>
    intro path dir f hlen h0 hhead hf
    unfold walkPathFrom
    cases path with
    | nil => exact ⟨_, rfl, .found .here⟩
    | cons c cs =>
      have hrest := length_rest c cs
      obtain ⟨h0p, h0r⟩ := noNul_component h0
      rw [components_cons (fun hc => hhead (by rw [hc]; rfl))]
      dsimp only
      have hnext := skipSlash_head ((c :: cs).dropWhile (· ≠ slash))
      generalize hp : (c :: cs).takeWhile (· ≠ slash) = p at h0p ⊢
      generalize hr : skipSlash ((c :: cs).dropWhile (· ≠ slash)) = rest at hrest h0r hnext ⊢
      by_cases hlong : MAXNAMELEN ≤ p.length
      · rw [if_pos hlong]
        refine ⟨_, rfl, .badPath rfl .here (fun _ x hx => ?_) hlong⟩
        exact absurd hx.2.2 (by omega)
      rw [if_neg hlong, bind_ok (load_ok _ _ d)]
      by_cases hdir : d f.blk f.fType ≠ FTYPE_DIR
      · rw [if_pos hdir]
        exact ⟨_, rfl, .notFound rfl .here (fun hd => absurd hd hdir) (by omega) (Or.inl hdir)⟩
      rw [if_neg hdir]
      have hdf : fileType d f = FTYPE_DIR := Classical.not_not.mp hdir
      rcases dirLookup_exact h hf hdf (show p.length < _ by omega) h0p with
        ⟨x, hx, hrun⟩ | ⟨hrun, hnone⟩
      · rw [bind_ok hrun]
        obtain ⟨w, hw, hout⟩ := ih rest (some f) x (by
          omega) h0r hnext (hx.mem h hf hdf)
        exact ⟨w, hw, hout.down hdf hx⟩
      · rw [bind_ok hrun]
        dsimp only
        by_cases hlast : -E_NOT_FOUND = -E_NOT_FOUND ∧ rest = []
        · rw [if_pos hlast, hlast.2]
          exact ⟨_, rfl, .missing rfl .here (fun _ => hnone) (by omega) hdf⟩
        · rw [if_neg hlast]
          refine ⟨_, rfl, .notFound rfl .here (fun _ => hnone) (by omega) (Or.inr fun he => ?_)⟩
          -- what is left has a component, as it is not empty and starts with no slash
          cases rest with
          | nil => exact hlast ⟨rfl, rfl⟩
          | cons y ys =>
            rw [components_cons (fun hy => hnext (by rw [hy]; rfl))] at he
            exact List.cons_ne_nil _ _ he

/-- **`walk_path`** from the root. -/
theorem walkPath_outcome (h : DirOk d) (h0 : 0#8 ∉ path) :
    ∃ w, walkPath path d = .ok w d ∧ Outcome d none sRoot (components path) w := by
  have hwalk := walkPathFrom_outcome h _ (skipSlash path) none sRoot le_rfl
    (fun hm => h0 ((List.dropWhile_sublist _).mem hm)) (skipSlash_head path) .root
  rwa [components_skipSlash] at hwalk

/-! ## §6. There is one outcome. -/

theorem components_ne_nil : ∀ c ∈ components path, c ≠ [] := by
  intro c hc
  simpa using List.of_mem_filter hc

theorem Child.unique (hn : DistinctNames d) (hg : g ∈ allFiles d)
    (hdir : fileType d g = FTYPE_DIR) (hne : name ≠ []) {x y : FileP} (hx : Child d g name x)
    (hy : Child d g name y) : x = y :=
  hn g hg hdir x hx.1 y hy.1 (by rw [hx.2.1]; exact hne) (hx.2.1.trans hy.2.1.symm)

/-- The walk ends at a component that cannot be resolved. -/
def stuck (d : Disk) (f : FileP) (c : List Byte) (cs : List (List Byte)) : PathWalk :=
  if MAXNAMELEN ≤ c.length then ⟨-E_BAD_PATH, none, none, []⟩
  else if fileType d f = FTYPE_DIR ∧ cs = [] then ⟨-E_NOT_FOUND, some f, none, c⟩
  else ⟨-E_NOT_FOUND, none, none, []⟩

/-- The first component leads to a child, or the walk is stuck there. -/
theorem Outcome.inv {c : List Byte} {cs : List (List Byte)} (h : Outcome d dir f (c :: cs) w) :
    (∃ x, fileType d f = FTYPE_DIR ∧ Child d f c x ∧ Outcome d (some f) x cs w) ∨
    (Unresolved d f c ∧ w = stuck d f c cs) := by
  cases h with
  | found hd =>
    cases hd with
    | down hdir hx hrest => exact Or.inl ⟨_, hdir, hx, .found hrest⟩
  | @badPath before after c' dir' f' hc hd hu hlong =>
    cases hd with
    | here =>
      obtain ⟨rfl, rfl⟩ := List.cons.inj hc
      refine Or.inr ⟨hu, ?_⟩
      unfold stuck
      rw [if_pos hlong]
    | down hdir hx hrest =>
      obtain ⟨rfl, rfl⟩ := List.cons.inj hc
      exact Or.inl ⟨_, hdir, hx, .badPath rfl hrest hu hlong⟩
  | @missing before c' dir' f' hc hd hu hlen hd' =>
    cases hd with
    | here =>
      obtain ⟨rfl, rfl⟩ := List.cons.inj hc
      refine Or.inr ⟨hu, ?_⟩
      unfold stuck
      rw [if_neg (by omega), if_pos ⟨hd', rfl⟩]
    | down hdir hx hrest =>
      obtain ⟨rfl, rfl⟩ := List.cons.inj hc
      exact Or.inl ⟨_, hdir, hx, .missing rfl hrest hu hlen hd'⟩
  | @notFound before after c' dir' f' hc hd hu hlen hw =>
    cases hd with
    | here =>
      obtain ⟨rfl, rfl⟩ := List.cons.inj hc
      refine Or.inr ⟨hu, ?_⟩
      unfold stuck
      rw [if_neg (by omega), if_neg (by tauto)]
    | down hdir hx hrest =>
      obtain ⟨rfl, rfl⟩ := List.cons.inj hc
      exact Or.inl ⟨_, hdir, hx, .notFound rfl hrest hu hlen hw⟩

theorem Outcome.nil (h : Outcome d dir f [] w) : w = ⟨0#32, dir, some f, []⟩ := by
  cases h with
  | found hd =>
    cases hd with
    | here => rfl
  | badPath hc | missing hc | notFound hc => exact absurd hc (by simp)

theorem Outcome.unique (h : DirOk d) (hn : DistinctNames d) (comps : List (List Byte)) :
    ∀ (dir : Option FileP) (f : FileP) (w w' : PathWalk), (∀ c ∈ comps, c ≠ []) → f ∈ allFiles d →
      Outcome d dir f comps w → Outcome d dir f comps w' → w = w' := by
  induction comps with
  | nil =>
    intro dir f w w' _ _ ho ho'
    rw [ho.nil, ho'.nil]
  | cons c cs ih =>
    intro dir f w w' hne hf ho ho'
    rcases ho.inv with ⟨x, hdir, hx, hrest⟩ | ⟨hu, hw⟩
    · rcases ho'.inv with ⟨x', -, hx', hrest'⟩ | ⟨hu', -⟩
      · obtain rfl := hx.unique hn hf hdir (hne c List.mem_cons_self) hx'
        exact ih (some f) x w w' (fun c' hc' => hne c' (List.mem_cons_of_mem _ hc'))
          (hx.mem h hf hdir) hrest hrest'
      · exact absurd hx (hu' hdir x)
    · rcases ho'.inv with ⟨x', hdir', hx', -⟩ | ⟨-, hw'⟩
      · exact absurd hx' (hu hdir' x')
      · rw [hw, hw']

/-- **Path resolution is exact.**  In good directories with distinct names, whatever
the path: `walk_path` returns and changes nothing; what it returns is the one
outcome of looking the components up one by one from the root; and it does the same
with its arrays, in which it stores nothing past the end. -/
theorem walkPath_exact (h : DirOk d) (hn : DistinctNames d) {path : List Byte} (h0 : 0#8 ∉ path) :
    ∃ w, walkPath path d = .ok w d ∧
      (∀ w', Outcome d none sRoot (components path) w' ↔ w' = w) ∧
      ∀ name lastelem, walkPathBuf path name lastelem d = .ok w d := by
  obtain ⟨w, hw, hout⟩ := walkPath_outcome h h0
  refine ⟨w, hw, fun w' => ⟨fun ho => ?_, fun he => he ▸ hout⟩, fun name lastelem => ?_⟩
  · exact Outcome.unique h hn _ none sRoot w' w components_ne_nil .root ho hout
  · rw [walkPathBuf_eq h h0]
    exact hw

/-- The small disk with a file `a` in its root. -/
def namedDisk : Disk := putWord smallDisk 3 0 0x61#32

theorem namedDisk_sameMeta : SameMeta (allFiles smallDisk) smallDisk namedDisk := by
  have hg : (⟨3, 0⟩ : FileP) ∈ allFiles smallDisk := by
    rw [smallDisk_allFiles]
    exact Or.inr ⟨0, by decide, rfl⟩
  have hrun : putDiskBytes ((⟨3, 0⟩ : FileP).fName + 0) [0x61#8] smallDisk = .ok () namedDisk := rfl
  exact (wp_ok (putName_spec [0x61#8] 0 smallDisk smallDisk_sound hg (by decide)) hrun).2

theorem namedDisk_entries (hx : x ∈ entriesOf namedDisk sRoot) : ∃ k < 16, x = ⟨3, 64 * k⟩ := by
  obtain ⟨n, hn, hx⟩ := hx
  replace hn : n < 1 := hn
  rw [Nat.lt_one_iff.mp hn] at hx
  exact hx

theorem namedDisk_name {k : Nat} (h0 : 0 < k) (hk : k < 16) : nameOf namedDisk ⟨3, 64 * k⟩ = [] :=
    by
  interval_cases k <;> decide +kernel

theorem namedDisk_distinct : DistinctNames namedDisk := by
  intro dir hdir htype x hx y hy hne he
  rw [namedDisk_sameMeta.allFiles_eq] at hdir
  have hroot : dir = sRoot := by
    rw [namedDisk_sameMeta.fileType_eq hdir] at htype
    rw [smallDisk_allFiles] at hdir
    rcases hdir with rfl | ⟨k, hk, rfl⟩
    · rfl
    · unfold fileType at htype
      rw [smallDisk_three] at htype
      exact absurd htype (by decide)
  rw [hroot] at hx hy
  have hfirst : ∀ z ∈ entriesOf namedDisk sRoot, nameOf namedDisk z ≠ [] → z = ⟨3, 0⟩ := by
    intro z hz hnz
    obtain ⟨k, hk, rfl⟩ := namedDisk_entries hz
    by_cases h0 : k = 0
    · rw [h0]
    · exact absurd (namedDisk_name (Nat.pos_of_ne_zero h0) hk) hnz
  rw [hfirst x hx hne, hfirst y hy (he ▸ hne)]

theorem walkPath_exact_named : walkPath [slash, slash, 0x61#8, slash] namedDisk
    = .ok ⟨0#32, some sRoot, some ⟨3, 0⟩, []⟩ namedDisk := by
  obtain ⟨w, hw, hout, -⟩ := walkPath_exact
    (smallDisk_dirOk.of_sameMeta namedDisk_sameMeta).1 namedDisk_distinct
    (show 0#8 ∉ [slash, slash, 0x61#8, slash] by decide)
  have ha : Child namedDisk sRoot [0x61#8] ⟨3, 0⟩ :=
    ⟨⟨0, by decide, 0, by decide, rfl⟩, by decide +kernel, by decide⟩
  rw [(hout _).mp (.found (.down rfl ha .here))]
  exact hw

end Jos

import Keuos.Ext2.Defs

/-!
## What the accesses of the file system do

Each reader and each loop either has its one result, which is stated here as a function of the bytes, or
leaves its buffer.  The modules above use these results and never unfold a loop.

## Main results

* `readU16_eq`, `readU32_eq`: the readers return the numbers of the format.
* `copyLoop_eq`, `copyLoop_outside`: a copy is done as a whole or leaves its source.
* `readDiskBlock_eq`, `getPhysicalBlock_eq`, `loadBlock_eq`: blocks and block numbers.
-/

namespace Keuos.Ext2

/-! ### The monad -/

@[simp] theorem ok_bind {α β : Type} (a : α) (f : α → M β) : ((.ok a : M α) >>= f) = f a := rfl

@[simp] theorem error_bind {α β : Type} (e : Stop) (f : α → M β) :
    ((.error e : M α) >>= f) = .error e := rfl

@[simp] theorem pure_eq_ok {α : Type} (a : α) : (pure a : M α) = .ok a := rfl

@[simp] theorem throw_eq_error {α : Type} (e : Stop) : (throw e : M α) = .error e := rfl

/-! ### Single accesses -/

namespace Buf

variable {b : Buf} {a : Nat}

@[simp] theorem page_size (byte : Bytes) : (page byte).size = 4096 := rfl

@[simp] theorem page_byte (byte : Bytes) : (page byte).byte = byte := rfl

theorem read_eq (h : a < b.size) : b.read a = .ok (b.byte a) := if_pos h

theorem read_outside (h : b.size ≤ a) : b.read a = .error .outside := if_neg (by omega)

theorem write_eq (v : UInt8) (h : a < b.size) :
    b.write a v = .ok ⟨b.size, fun i => if i = a then v else b.byte i⟩ := if_pos h

end Buf

theorem quot_eq {a b : Nat} (h : 0 < b) : quot a b = .ok (a / b) := if_neg (by omega)

theorem remainder_eq {a b : Nat} (h : 0 < b) : remainder a b = .ok (a % b) := if_neg (by omega)

theorem le16_lt (f : Bytes) (a : Nat) : le16 f a < 2 ^ 16 := by
  have h0 := (f a).toNat_lt
  have h1 := (f (a + 1)).toNat_lt
  rw [le16]
  omega

theorem le32_lt (f : Bytes) (a : Nat) : le32 f a < 2 ^ 32 := by
  have h0 := (f a).toNat_lt
  have h1 := (f (a + 1)).toNat_lt
  have h2 := (f (a + 2)).toNat_lt
  have h3 := (f (a + 3)).toNat_lt
  rw [le32]
  omega

theorem le16_congr {f g : Bytes} {a b : Nat} (h : ∀ i < 2, f (a + i) = g (b + i)) : le16 f a = le16 g b := by
  have h0 := h 0 (by omega)
  have h1 := h 1 (by omega)
  rw [Nat.add_zero, Nat.add_zero] at h0
  rw [le16, le16, h0, h1]

theorem le32_congr {f g : Bytes} {a b : Nat} (h : ∀ i < 4, f (a + i) = g (b + i)) : le32 f a = le32 g b := by
  have h0 := h 0 (by omega)
  have h1 := h 1 (by omega)
  have h2 := h 2 (by omega)
  have h3 := h 3 (by omega)
  rw [Nat.add_zero, Nat.add_zero] at h0
  rw [le32, le32, h0, h1, h2, h3]

theorem or_shiftLeft {lo h k : Nat} (hlo : lo < 2 ^ k) : lo ||| h <<< k = lo + 2 ^ k * h := by
  rw [Nat.shiftLeft_eq, Nat.mul_comm h, Nat.or_comm, ← Nat.two_pow_add_eq_or_of_lt hlo, Nat.add_comm]

section Readers

variable {b : Buf} {a : Nat}

theorem readU16_eq (h : a + 1 < b.size) : readU16 b a = .ok (le16 b.byte a) := by
  have h0 := (b.byte a).toNat_lt
  rw [readU16, Buf.read_eq (by omega), ok_bind, Buf.read_eq h, ok_bind, pure_eq_ok, or_shiftLeft h0, le16]
  simp only [Nat.reducePow]

theorem readU32_eq (h : a + 3 < b.size) : readU32 b a = .ok (le32 b.byte a) := by
  have h0 := (b.byte a).toNat_lt
  have h1 := (b.byte (a + 1)).toNat_lt
  have h2 := (b.byte (a + 2)).toNat_lt
  have h01 := or_shiftLeft (h := (b.byte (a + 1)).toNat) h0
  have h02 := or_shiftLeft (k := 16) (h := (b.byte (a + 2)).toNat)
    (show (b.byte a).toNat + 2 ^ 8 * (b.byte (a + 1)).toNat < 2 ^ 16 by omega)
  have h03 := or_shiftLeft (k := 24) (h := (b.byte (a + 3)).toNat)
    (show (b.byte a).toNat + 2 ^ 8 * (b.byte (a + 1)).toNat + 2 ^ 16 * (b.byte (a + 2)).toNat <
      2 ^ 24 by omega)
  rw [readU32, Buf.read_eq (by omega), ok_bind, Buf.read_eq (by omega), ok_bind,
    Buf.read_eq (by omega), ok_bind,
    Buf.read_eq h, ok_bind, pure_eq_ok, h01, h02, h03, le32]
  simp only [Nat.reducePow]

theorem readU16_outside (h : b.size ≤ a + 1) : readU16 b a = .error .outside := by
  rw [readU16]
  by_cases h0 : a < b.size
  · rw [Buf.read_eq h0, ok_bind, Buf.read_outside h, error_bind]
  · rw [Buf.read_outside (by omega), error_bind]

theorem readU32_outside (h : b.size ≤ a + 3) : readU32 b a = .error .outside := by
  rw [readU32]
  by_cases h0 : a < b.size
  · rw [Buf.read_eq h0, ok_bind]
    by_cases h1 : a + 1 < b.size
    · rw [Buf.read_eq h1, ok_bind]
      by_cases h2 : a + 2 < b.size
      · rw [Buf.read_eq h2, ok_bind, Buf.read_outside h, error_bind]
      · rw [Buf.read_outside (by omega), error_bind]
    · rw [Buf.read_outside (by omega), error_bind]
  · rw [Buf.read_outside (by omega), error_bind]

end Readers

/-! ### Loops over bytes -/

theorem copyLoop_eq (src : Buf) (s d left : Nat) : ∀ (i : Nat) (dst : Buf), s + (i + left) ≤ src.size →
    d + (i + left) ≤ dst.size →
    copyLoop src s d i left dst = .ok ⟨dst.size, fun a =>
      if d + i ≤ a ∧ a < d + (i + left) then src.byte (s + (a - d)) else dst.byte a⟩ := by
  induction left with
  | zero =>
    intro i dst _ _
    rw [copyLoop]
    refine congrArg Except.ok ?_
    rw [Buf.mk.injEq]
    refine ⟨rfl, funext fun a => ?_⟩
    rw [if_neg (by omega)]
  | succ left ih =>
    intro i dst hsrc hdst
    rw [copyLoop, Buf.read_eq (by omega), ok_bind, Buf.write_eq _ (by omega), ok_bind,
      ih (i + 1) ⟨dst.size, _⟩ (by omega) (by simp only; omega)]
    refine congrArg Except.ok ?_
    rw [Buf.mk.injEq]
    refine ⟨rfl, funext fun a => ?_⟩
    by_cases ha : a = d + i
    · subst ha
      rw [if_neg (by omega), if_pos (by omega), Nat.add_sub_cancel_left]
      exact if_pos rfl
    · simp only [ha, if_false]
      exact if_congr (by omega) rfl rfl

/-- **A copy leaves a source** that ends too early. -/
theorem copyLoop_outside (src : Buf) (s d left : Nat) : ∀ (i : Nat) (dst : Buf), src.size < s + (i + left) →
    0 < left → d + (i + left) ≤ dst.size → copyLoop src s d i left dst = .error .outside := by
  induction left with
  | zero => intro i dst _ hpos; omega
  | succ left ih =>
    intro i dst hsrc _ hdst
    rw [copyLoop]
    by_cases hi : s + i < src.size
    · rw [Buf.read_eq hi, ok_bind, Buf.write_eq _ (by omega), ok_bind]
      exact ih (i + 1) _ (by omega) (by omega) (by simp only; omega)
    · rw [Buf.read_outside (by omega), error_bind]

theorem zeroLoop_eq (left : Nat) : ∀ (j : Nat) (buf : Buf), j + left ≤ buf.size →
    zeroLoop j left buf = .ok ⟨buf.size, fun a => if j ≤ a ∧ a < j + left then 0 else buf.byte a⟩ := by
  induction left with
  | zero =>
    intro j buf _
    rw [zeroLoop]
    refine congrArg Except.ok ?_
    rw [Buf.mk.injEq]
    refine ⟨rfl, funext fun a => ?_⟩
    rw [if_neg (by omega)]
  | succ left ih =>
    intro j buf hbuf
    rw [zeroLoop, Buf.write_eq _ (by omega), ok_bind, ih (j + 1) ⟨buf.size, _⟩ (by simp only; omega)]
    refine congrArg Except.ok ?_
    rw [Buf.mk.injEq]
    refine ⟨rfl, funext fun a => ?_⟩
    by_cases ha : a = j
    · subst ha
      rw [if_neg (by omega), if_pos (by omega)]
      exact if_pos rfl
    · simp only [ha, if_false]
      exact if_congr (by omega) rfl rfl

/-! ### Blocks -/

/-- The globals after a file system has been mounted. -/
structure Config.Mounted (c : Config) : Prop where
  blockSize_eq : c.blockSize = 1024 ∨ c.blockSize = 2048 ∨ c.blockSize = 4096
  inodes_pos : 0 < c.inodesPerGroup
  inodeSize_lt : c.inodeSize < 2 ^ 16

namespace Config.Mounted

variable {c : Config} (hc : c.Mounted)
include hc

theorem blockSize_pos : 0 < c.blockSize := by
  rcases hc.blockSize_eq with h | h | h <;> omega

theorem blockSize_le : c.blockSize ≤ 4096 := by
  rcases hc.blockSize_eq with h | h | h <;> omega

end Config.Mounted

/-- The bytes of a page once a block has been read into it. -/
def blockPage (device : Bytes) (bs block : Nat) (under : Bytes) : Bytes := fun i =>
  if i < bs then device (block * bs + i) else under i

section Device

variable {device : Bytes} {c : Config}

theorem readDiskBlock_of_size (hc : c.blockSize = 1024 ∨ c.blockSize = 2048 ∨ c.blockSize = 4096)
    (block : Nat)
    {buf : Buf} (hbuf : c.blockSize ≤ buf.size) :
    readDiskBlock device c block buf = .ok ⟨buf.size, blockPage device c.blockSize block buf.byte⟩ := by
  have hsectors : 512 * (c.blockSize / 512) = c.blockSize := by
    rcases hc with h | h | h <;> rw [h]
  have hlba : 512 * (block * (c.blockSize / 512)) = block * c.blockSize := by
    rw [Nat.mul_left_comm, hsectors]
  rw [readDiskBlock, submitRequest, hsectors, if_pos hbuf, hlba]
  rfl

theorem readDiskBlock_eq (hc : c.Mounted) (block : Nat) {buf : Buf} (hbuf : buf.size = 4096) :
    readDiskBlock device c block buf = .ok ⟨4096, blockPage device c.blockSize block buf.byte⟩ := by
  rw [readDiskBlock_of_size hc.blockSize_eq block (hbuf ▸ hc.blockSize_le), hbuf]

theorem le32_blockPage {bs block a : Nat} {under : Bytes} (h : a + 3 < bs) :
    le32 (blockPage device bs block under) a = le32 device (block * bs + a) := by
  refine le32_congr fun i hi => ?_
  rw [blockPage, if_pos (by omega), Nat.add_assoc]

theorem le16_blockPage {bs block a : Nat} {under : Bytes} (h : a + 1 < bs) :
    le16 (blockPage device bs block under) a = le16 device (block * bs + a) := by
  refine le16_congr fun i hi => ?_
  rw [blockPage, if_pos (by omega), Nat.add_assoc]

/-- The block that the code finds for a logical block. -/
def physicalBlock (device : Bytes) (bs : Nat) (inode : Bytes) (logical : Nat) : Nat :=
  if logical < 12 then le32 inode (40 + 4 * logical)
  else if logical < 12 + bs / 4 then
    if le32 inode 88 = 0 then 0 else le32 device (le32 inode 88 * bs + 4 * (logical - 12))
  else 0

/-- **The page of an indirect block is never left**, whatever its bytes and those of the inode are. -/
theorem getPhysicalBlock_eq (hc : c.Mounted) {inodeBuf : Buf} (hsize : inodeBuf.size = 4096) (logical : Nat)
    (fresh : Bytes) :
    getPhysicalBlock device c inodeBuf logical fresh
      = .ok (physicalBlock device c.blockSize inodeBuf.byte logical) := by
  have hbs := hc.blockSize_eq
  rw [getPhysicalBlock, physicalBlock]
  by_cases hdirect : logical < 12
  · rw [if_pos hdirect, if_pos hdirect, readU32_eq (by omega), Nat.mul_comm]
  · rw [if_neg hdirect, if_neg hdirect]
    by_cases hsingle : logical < 12 + c.blockSize / 4
    · rw [if_pos hsingle, if_pos hsingle, readU32_eq (by omega), ok_bind]
      by_cases hzero : le32 inodeBuf.byte 88 = 0
      · rw [if_pos hzero, if_pos hzero, pure_eq_ok]
      · have hidx : (logical - 12) * 4 + 3 < c.blockSize := by
          rcases hbs with h | h | h <;> omega
        have hle := hc.blockSize_le
        rw [if_neg hzero, if_neg hzero, readDiskBlock_eq hc _ rfl, ok_bind, readU32_eq (by simp only; omega),
          le32_blockPage hidx, Nat.mul_comm 4]
    · rw [if_neg hsingle, if_neg hsingle]

/-- What the bounce page holds for a block number, where 0 stands for zeros. -/
def loadedPage (device : Bytes) (bs block : Nat) (under : Bytes) : Bytes := fun i =>
  if i < bs then if block = 0 then 0 else device (block * bs + i) else under i

theorem loadBlock_eq (hc : c.Mounted) (pblock : Nat) {bounce : Buf} (hsize : bounce.size = 4096) :
    loadBlock device c pblock bounce = .ok ⟨4096, loadedPage device c.blockSize pblock bounce.byte⟩ := by
  have hle := hc.blockSize_le
  rw [loadBlock]
  by_cases hzero : pblock = 0
  · rw [if_neg (not_not.mpr hzero), zeroLoop_eq _ 0 _ (by omega), hsize]
    refine congrArg Except.ok ?_
    rw [Buf.mk.injEq]
    refine ⟨rfl, funext fun a => ?_⟩
    rw [loadedPage, if_pos hzero]
    exact if_congr (by omega) rfl rfl
  · rw [if_pos hzero, readDiskBlock_eq hc _ hsize]
    refine congrArg Except.ok ?_
    rw [Buf.mk.injEq]
    refine ⟨rfl, funext fun a => ?_⟩
    rw [loadedPage, if_neg hzero, blockPage]

end Device

end Keuos.Ext2

/-!
### What `ext2_check_dir_entry` returns

### Main results

* `matchLoop_eq`: the comparison of a name.
* `ext2CheckDirEntry_eq`: the inode of an entry of the name, for any bytes on the page.
* `entryResult_of_entry`: for an entry of the format, the inode exactly when the entry is of the name.
* `Entries.unique`: a block has its entries at one list of positions.
* `ext2LookupLoop_step`: one round of the loop over a directory.
-/

namespace Keuos.Ext2

instance instDecidableEntryNamed (block : Bytes) (p : Nat)
    (name : Bytes) : Decidable (EntryNamed block p name) :=
  inferInstanceAs (Decidable (_ ∧ _))

/-! ### The code's entry -/

theorem matchLoop_eq {bounce : Buf} (entryName : Nat) (name : Bytes) (left : Nat) : ∀ i : Nat,
    entryName + (i + left) ≤ bounce.size →
    matchLoop bounce entryName name i left
      = .ok (decide (∀ j < i + left, i ≤ j → name j = bounce.byte (entryName + j))) := by
  induction left with
  | zero =>
    intro i _
    have hnone : ∀ j < i + 0, i ≤ j → name j = bounce.byte (entryName + j) := fun j h1 h2 => by omega
    rw [matchLoop, decide_eq_true hnone]
  | succ left ih =>
    intro i hfit
    rw [matchLoop, Buf.read_eq (by omega), ok_bind]
    by_cases hi : name i = bounce.byte (entryName + i)
    · rw [if_neg (not_not.mpr hi), ih (i + 1) (by omega)]
      refine congrArg Except.ok (decide_eq_decide.mpr ⟨fun h j hj hij => ?_, fun h j hj hij => ?_⟩)
      · by_cases hji : j = i
        · rw [hji, hi]
        · exact h j (by omega) (by omega)
      · exact h j (by omega) (by omega)
    · have hsome : ¬ ∀ j < i + (left + 1), i ≤ j → name j = bounce.byte (entryName + j) :=
        fun h => hi (h i (by omega) (le_refl i))
      rw [if_pos hi, decide_eq_false hsome, pure_eq_ok]

/-- The inode of the entry at a position, where the code takes it for one of the name. -/
def entryResult (bs : Nat) (page : Bytes) (p : Nat) (name : Bytes) : Nat :=
  if 8 ≤ entryRecLen page p ∧ 4 ∣ entryRecLen page p ∧ p + entryRecLen page p ≤ bs ∧
      8 + entryNameLen page p ≤ entryRecLen page p ∧ EntryNamed page p name
  then entryInode page p else 0

/-- **The check of an entry** stays inside of the page when the record's length is there. -/
theorem ext2CheckDirEntry_eq {c : Config} (hc : c.Mounted) {bounce : Buf}
    (hsize : bounce.size = 4096) {p : Nat}
    (hp : p + 6 ≤ 4096) (name : Bytes) :
    ext2CheckDirEntry c bounce p name = .ok (entryResult c.blockSize bounce.byte p name) := by
  have hle := hc.blockSize_le
  rw [ext2CheckDirEntry, entryResult, readU16_eq (by omega), ok_bind,
    show le16 bounce.byte (p + 4) = entryRecLen bounce.byte p from rfl]
  by_cases hmin : entryRecLen bounce.byte p < 8
  · rw [if_pos hmin, if_neg (by omega), pure_eq_ok]
  by_cases hdvd : ¬ 4 ∣ entryRecLen bounce.byte p
  · rw [if_neg hmin, if_pos (by omega), if_neg (fun h => hdvd h.2.1), pure_eq_ok]
  by_cases hend : p + entryRecLen bounce.byte p > c.blockSize
  · rw [if_neg hmin, if_neg (by omega), if_pos hend, if_neg (by omega), pure_eq_ok]
  rw [if_neg hmin, if_neg (by omega), if_neg hend, Buf.read_eq (by omega), ok_bind,
    show (bounce.byte (p + 6)).toNat = entryNameLen bounce.byte p from rfl]
  by_cases hname : entryRecLen bounce.byte p < 8 + entryNameLen bounce.byte p
  · rw [if_pos hname, if_neg (by omega), pure_eq_ok]
  rw [if_neg hname, readU32_eq (by omega), ok_bind, show le32 bounce.byte p =
    entryInode bounce.byte p from rfl]
  by_cases hzero : entryInode bounce.byte p = 0
  · rw [if_pos hzero, hzero, ite_self, pure_eq_ok]
  rw [if_neg hzero, matchLoop_eq _ _ _ _ (by omega), ok_bind]
  simp only [Nat.zero_add, Nat.zero_le, true_imp_iff, decide_eq_true_eq, pure_eq_ok]
  rw [← apply_ite Except.ok]
  refine congrArg Except.ok (if_congr ?_ rfl rfl)
  exact ⟨fun h => ⟨by omega, by omega, by omega, by omega, h⟩, fun h => h.2.2.2.2⟩

/-! ### The format's entry -/

section Format

variable {bs : Nat} {block : Bytes}

theorem entryResult_of_entry {page : Bytes} (hpage : ∀ i < bs, page i = block i) {p : Nat}
    (hlen : 8 + entryNameLen block p ≤ entryRecLen block p) (hdvd : 4 ∣ entryRecLen block p)
    (hend : p + entryRecLen block p ≤ bs) (name : Bytes) :
    entryResult bs page p name = if EntryNamed block p name then entryInode block p else 0 := by
  have hinode : entryInode page p = entryInode block p := le32_congr fun i hi => hpage _ (by omega)
  have hrecLen : entryRecLen page p = entryRecLen block p := le16_congr fun i hi => hpage _ (by omega)
  have hnameLen : entryNameLen page p = entryNameLen block p := by
    rw [entryNameLen, entryNameLen, hpage _ (by omega)]
  have hnamed : EntryNamed page p name ↔ EntryNamed block p name := by
    rw [EntryNamed, EntryNamed, hnameLen]
    refine and_congr_left' (forall₂_congr fun i hi => ?_)
    rw [hpage _ (by omega)]
  rw [entryResult, hinode, hrecLen, hnameLen]
  refine if_congr ⟨fun h => hnamed.mp h.2.2.2.2, fun h => ?_⟩ rfl rfl
  exact ⟨by omega, hdvd, hend, hlen, hnamed.mpr h⟩

theorem Entries.lt {p : Nat} {ps : List Nat} (h : Entries bs block p ps) : ∀ q ∈ ps, p ≤ q ∧ q < bs := by
  induction h with
  | done => simp
  | @entry p rest hlen hdvd hend hname hrest ih =>
    intro q hq
    rcases List.mem_cons.mp hq with rfl | hq
    · exact ⟨le_refl _, by omega⟩
    · have hq := ih q hq
      exact ⟨by omega, hq.2⟩

/-- **A block has its entries at one list of positions.** -/
theorem Entries.unique {p : Nat} {ps : List Nat} (h : Entries bs block p ps) :
    ∀ ps', Entries bs block p ps' → ps = ps' := by
  induction h with
  | done =>
    intro ps' h'
    cases h' with
    | done => rfl
    | entry hlen hdvd hend hname hrest => omega
  | @entry p rest hlen hdvd hend hname hrest ih =>
    intro ps' h'
    cases h' with
    | done => omega
    | entry hlen' hdvd' hend' hname' hrest' => rw [ih _ hrest']

end Format

/-! ### One round of the loop -/

section Loop

variable {device : Bytes} {c : Config} {readFuel : Nat} {dir : Inode} {name : Bytes} {reads : Nat → ReadPages}
  {fuel offset : Nat} {bounce page : Buf}

theorem loadDirBlock_inside (hc : c.Mounted) (h : offset % c.blockSize ≠ 0) (pages : ReadPages) :
    loadDirBlock device c readFuel dir offset bounce pages = .ok bounce := by
  rw [loadDirBlock, remainder_eq hc.blockSize_pos, ok_bind, if_pos h, pure_eq_ok]

theorem loadDirBlock_start (hc : c.Mounted) (h : offset % c.blockSize = 0) (pages : ReadPages) :
    loadDirBlock device c readFuel dir offset bounce pages
      = (ext2Read device c readFuel dir offset bounce c.blockSize pages).map Prod.snd := by
  rw [loadDirBlock, remainder_eq hc.blockSize_pos, ok_bind, if_neg (not_not.mpr h)]
  cases ext2Read device c readFuel dir offset bounce c.blockSize pages <;> rfl

theorem ext2LookupLoop_end (h : dir.size ≤ offset) :
    ext2LookupLoop device c readFuel dir name reads (fuel + 1) offset bounce = .ok 0 := by
  rw [ext2LookupLoop, if_neg (by omega)]

/-- **One round**, once the page holds the block: the loop ends at a record that is too short or at an entry
of the name, and goes on behind the record else. -/
theorem ext2LookupLoop_step (name : Bytes) (fuel : Nat) (hc : c.Mounted) (hmore : offset < dir.size)
    (hload : loadDirBlock device c readFuel dir offset bounce (reads offset) = .ok page)
        (hsize : page.size = 4096)
    (hfit : offset % c.blockSize + 6 ≤ 4096) :
    ext2LookupLoop device c readFuel dir name reads (fuel + 1) offset bounce =
      if entryRecLen page.byte (offset % c.blockSize) < 8 then .ok 0
      else if entryResult c.blockSize page.byte (offset % c.blockSize) name ≠ 0
        then .ok (entryResult c.blockSize page.byte (offset % c.blockSize) name)
      else ext2LookupLoop device c readFuel dir name reads fuel
        ((offset + entryRecLen page.byte (offset % c.blockSize)) % 2 ^ 64) page := by
  rw [ext2LookupLoop, if_pos hmore, hload, ok_bind, readU16_eq (by omega), ok_bind,
    show le16 page.byte (offset % c.blockSize + 4) = entryRecLen page.byte (offset % c.blockSize) from rfl]
  by_cases hmin : entryRecLen page.byte (offset % c.blockSize) < 8
  · rw [if_pos hmin, if_pos hmin, pure_eq_ok]
  · rw [if_neg hmin, if_neg hmin, ext2CheckDirEntry_eq hc hsize hfit, ok_bind, pure_eq_ok]

end Loop

end Keuos.Ext2

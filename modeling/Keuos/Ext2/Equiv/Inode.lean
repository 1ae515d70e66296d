import Keuos.Ext2.Equiv.Access

/-!
## What `ext2_read` and `ext2_get_inode` return

For any bytes on the device, mounted or hostile: an inode is loaded unless its descriptor is behind the first
block of the table, and then it is copied unless it crosses the end of the page.  What a read returns after
that is a function of the copy.

## Main results

* `ext2LoadInodeToBounce_eq`, `ext2LoadInodeToBounce_panic`: the inode's block, or the panic.
* `ext2ReadDataLoop_eq`: the loop reads all bytes, and they are those of `contentByte`.
* `ext2Read_eq`, `ext2Read_panic`, `ext2Read_outside`: the three ends of a read.
* `ext2GetInode_eq`, `ext2GetInode_panic`, `ext2GetInode_outside`: the three ends for an inode.
-/

namespace Keuos.Ext2

/-! ### Where the code finds an inode -/

section Place

variable (device : Bytes) (c : Config) (n : Nat)

/-- The group, and the offset in the group's table, where the product is of 32 bits. -/
def inodeGroup : Nat := inodeIndex n / c.inodesPerGroup
def inodeSlot : Nat := inodeIndex n % c.inodesPerGroup * c.inodeSize % 2 ^ 32

/-- The block of the inode. -/
def inodeBlock : Nat :=
  (le32 device ((if c.blockSize = 1024 then 2 else 1) * c.blockSize + (inodeGroup c n * 32 + 8))
    + inodeSlot c n / c.blockSize) % 2 ^ 32

/-- The position of the inode in its block. -/
def inodeOffset : Nat := inodeSlot c n % c.blockSize

/-- The descriptor of the group is in the first block of the table. -/
def InFirstBlock : Prop := inodeGroup c n * 32 + 32 ≤ c.blockSize

instance instDecidableInFirstBlock : Decidable (InFirstBlock c n) := inferInstanceAs (Decidable (_ ≤ _))

/-- The bounce page once the inode is there. -/
def inodePage (fresh : Bytes) : Bytes :=
  blockPage device c.blockSize (inodeBlock device c n)
    (blockPage device c.blockSize (if c.blockSize = 1024 then 2 else 1) fresh)

/-- The copy of the inode. -/
def inodeCopy (fresh under : Bytes) : Bytes := fun i =>
  if i < 128 then inodePage device c n fresh (inodeOffset c n + i) else under i

end Place

section Load

variable {device : Bytes} {c : Config} {n : Nat}

theorem inodeOffset_lt (hc : c.Mounted) : inodeOffset c n < c.blockSize := Nat.mod_lt _ hc.blockSize_pos

theorem ext2LoadInodeToBounce_eq (hc : c.Mounted) (hn : InFirstBlock c n) {bounce : Buf}
    (hsize : bounce.size = 4096) :
    ext2LoadInodeToBounce device c n bounce
      = .ok (⟨4096, inodePage device c n bounce.byte⟩, inodeOffset c n) := by
  have hle := hc.blockSize_le
  have hpos := hc.blockSize_pos
  rw [InFirstBlock, inodeGroup] at hn
  rw [ext2LoadInodeToBounce, quot_eq hc.inodes_pos, ok_bind, remainder_eq hc.inodes_pos, ok_bind]
  simp only
  rw [if_neg (by omega), readDiskBlock_eq hc _ hsize, ok_bind,
    readU32_eq (by simp only; omega), ok_bind, quot_eq hpos, ok_bind, remainder_eq hpos, ok_bind,
    readDiskBlock_eq hc _ rfl, ok_bind, pure_eq_ok, le32_blockPage (by omega)]
  rfl

/-- **The panic**: the code has only the first block of the descriptors. -/
theorem ext2LoadInodeToBounce_panic (hc : c.Mounted) (hn : ¬ InFirstBlock c n) (bounce : Buf) :
    ext2LoadInodeToBounce device c n bounce = .error (.panic "EXT2: GDT out of bounds") := by
  rw [InFirstBlock, inodeGroup] at hn
  rw [ext2LoadInodeToBounce, quot_eq hc.inodes_pos, ok_bind, remainder_eq hc.inodes_pos, ok_bind]
  simp only
  rw [if_pos (by omega), throw_eq_error, error_bind]

theorem ext2CopyInode_eq (fresh under : Bytes) (hfit : inodeOffset c n + 128 ≤ 4096) :
    ext2CopyInode ⟨4096, inodePage device c n fresh⟩ (inodeOffset c n) (.page under)
      = .ok ⟨4096, inodeCopy device c n fresh under⟩ := by
  rw [ext2CopyInode, copyLoop_eq _ _ _ _ _ _ (by simp only; omega) (by rw [Buf.page_size]; omega)]
  refine congrArg Except.ok ?_
  rw [Buf.mk.injEq]
  refine ⟨rfl, funext fun i => ?_⟩
  simp only [Nat.zero_add, Nat.sub_zero, Nat.zero_le, true_and]
  rfl

end Load

/-! ### The loop of a read -/

/-- The byte of the file that the code finds with a copy of the inode. -/
def contentByte (device : Bytes) (bs : Nat) (inode : Bytes) (offset : Nat) : UInt8 :=
  if physicalBlock device bs inode (offset / bs) = 0 then 0
  else device (physicalBlock device bs inode (offset / bs) * bs + offset % bs)

section Loop

variable {device : Bytes} {c : Config}

theorem loadedPage_eq_contentByte (device : Bytes) (hc : c.Mounted) (inode under : Bytes) {offset i : Nat}
    (hi : i < c.blockSize - offset % c.blockSize) :
    loadedPage device c.blockSize (physicalBlock device c.blockSize inode (offset / c.blockSize)) under
        (offset % c.blockSize + i)
      = contentByte device c.blockSize inode (offset + i) := by
  have hpos := hc.blockSize_pos
  have hlt := Nat.mod_lt offset hpos
  have hdiv : (offset + i) / c.blockSize = offset / c.blockSize := by
    rw [Nat.div_eq_iff hpos]
    have h := Nat.div_add_mod offset c.blockSize
    rw [Nat.mul_comm] at h
    omega
  have hmod : (offset + i) % c.blockSize = offset % c.blockSize + i := by
    rw [Nat.add_mod, Nat.mod_eq_of_lt (show i < c.blockSize by omega), Nat.mod_eq_of_lt (by omega)]
  rw [loadedPage, contentByte, if_pos (by omega), hdiv, hmod]

/-- **The loop reads all bytes.** Each round takes the rest of one block, and the buffer holds the file's
bytes up to the number of bytes that were read. -/
theorem ext2ReadDataLoop_eq (hc : c.Mounted) (inodeBuf : Buf) (hinode : inodeBuf.size = 4096)
    (offset actualCount : Nat) (indirect : Nat → Bytes) (fuel : Nat) : ∀ (bytesRead : Nat) (buf bounce : Buf),
    bounce.size = 4096 → actualCount ≤ buf.size → bytesRead ≤ actualCount → actualCount - bytesRead < fuel →
    ext2ReadDataLoop device c inodeBuf offset actualCount indirect fuel bytesRead buf bounce
      = .ok (actualCount, ⟨buf.size, fun i => if bytesRead ≤ i ∧ i < actualCount
          then contentByte device c.blockSize inodeBuf.byte (offset + i) else buf.byte i⟩) := by
  have hpos := hc.blockSize_pos
  have hle := hc.blockSize_le
  induction fuel with
  | zero => intro bytesRead buf bounce _ _ _ hfuel; omega
  | succ fuel ih =>
    intro bytesRead buf bounce hbounce hbuf hread hfuel
    rw [ext2ReadDataLoop]
    by_cases hmore : bytesRead < actualCount
    · have hlt := Nat.mod_lt (offset + bytesRead) hpos
      -- at least one byte is left of the block and of the count
      obtain ⟨toRead, htoRead⟩ : ∃ t, t = min (c.blockSize - (offset + bytesRead) % c.blockSize)
        (actualCount - bytesRead) := ⟨_, rfl⟩
      rw [if_pos hmore, quot_eq hpos, ok_bind, remainder_eq hpos, ok_bind,
        getPhysicalBlock_eq hc hinode, ok_bind,
        loadBlock_eq hc _ hbounce, ok_bind]
      simp only
      rw [← htoRead, copyLoop_eq _ _ _ _ _ _ (by simp only; omega) (by omega), ok_bind,
        ih (bytesRead + toRead) ⟨buf.size, _⟩ ⟨4096, _⟩ rfl (by exact hbuf) (by omega) (by omega)]
      refine congrArg Except.ok (congrArg (Prod.mk _) ?_)
      rw [Buf.mk.injEq]
      refine ⟨rfl, funext fun i => ?_⟩
      simp only [Nat.add_zero, Nat.zero_add]
      by_cases hround : bytesRead ≤ i ∧ i < bytesRead + toRead
      · have hbyte := loadedPage_eq_contentByte device hc inodeBuf.byte bounce.byte
          (show i - bytesRead < c.blockSize - (offset + bytesRead) % c.blockSize by omega)
        rw [show offset + bytesRead + (i - bytesRead) = offset + i by omega] at hbyte
        rw [if_neg (by omega), if_pos (by omega), if_pos (by omega), hbyte]
      · by_cases hrest : bytesRead + toRead ≤ i ∧ i < actualCount
        · rw [if_pos hrest, if_pos (by omega)]
        · rw [if_neg hrest, if_neg (by omega), if_neg (by omega)]
    · have hall : bytesRead = actualCount := by omega
      rw [if_neg hmore, hall]
      refine congrArg Except.ok (congrArg (Prod.mk _) ?_)
      rw [Buf.mk.injEq]
      refine ⟨rfl, funext fun i => ?_⟩
      rw [if_neg (by omega)]

end Loop

/-! ### Reads -/

section Read

variable {device : Bytes} {c : Config} {fuel : Nat} {inode : Inode} {offset : Nat} {buf : Buf} {count : Nat}
  {pages : ReadPages}

/-- The number of bytes that a read is for. -/
def readCount (inode : Inode) (offset count : Nat) : Nat := min count (inode.size - offset)

theorem ext2Read_past_end (h : inode.size ≤ offset) :
    ext2Read device c fuel inode offset buf count pages = .ok (0, buf) := if_pos h

/-- **A read of an inode** whose descriptor is in the first block and that does not cross the end of the
page. -/
theorem ext2Read_eq (hc : c.Mounted) (hoffset : offset < inode.size)
    (hn : InFirstBlock c (inode.data % 2 ^ 32))
    (hfit : inodeOffset c (inode.data % 2 ^ 32) + 128 ≤ 4096)
    (hbuf : readCount inode offset count ≤ buf.size) (hfuel : readCount inode offset count < fuel) :
    ext2Read device c fuel inode offset buf count pages
      = .ok (readCount inode offset count, ⟨buf.size, fun i => if i < readCount inode offset count
          then contentByte device c.blockSize
            (inodeCopy device c (inode.data % 2 ^ 32) pages.bounce pages.inodeBuf) (offset + i)
          else buf.byte i⟩) := by
  have hactual : (if inode.size - offset < count then inode.size - offset else count)
      = readCount inode offset count := by
    rw [readCount]
    split <;> omega
  rw [ext2Read, if_neg (by omega), ext2LoadInodeToBounce_eq hc hn (Buf.page_size _), ok_bind]
  simp only [Buf.page_byte]
  rw [hactual, ext2CopyInode_eq _ _ hfit, ok_bind,
    ext2ReadDataLoop_eq hc ⟨4096, _⟩ rfl _ _ _ _ _ _ ⟨4096, _⟩ rfl hbuf (Nat.zero_le _) (by omega)]
  simp only [Nat.zero_le, true_and]

theorem ext2Read_panic (hc : c.Mounted) (hoffset : offset < inode.size)
    (hn : ¬ InFirstBlock c (inode.data % 2 ^ 32)) :
    ext2Read device c fuel inode offset buf count pages = .error (.panic "EXT2: GDT out of bounds") := by
  rw [ext2Read, if_neg (by omega), ext2LoadInodeToBounce_panic hc hn, error_bind]

/-- **The copy of the inode leaves the page** where less than 128 bytes of the page are behind its start. -/
theorem ext2Read_outside (hc : c.Mounted) (hoffset : offset < inode.size)
    (hn : InFirstBlock c (inode.data % 2 ^ 32)) (hcross : 4096 < inodeOffset c (inode.data % 2 ^ 32) + 128) :
    ext2Read device c fuel inode offset buf count pages = .error .outside := by
  rw [ext2Read, if_neg (by omega), ext2LoadInodeToBounce_eq hc hn (Buf.page_size _), ok_bind]
  simp only
  rw [ext2CopyInode, copyLoop_outside _ _ _ _ _ _ (by simp only; omega) (by omega)
    (by rw [Buf.page_size]; omega),
    error_bind]

end Read

/-! ### Inodes -/

section Get

variable {device : Bytes} {c : Config} {n : Nat} {fresh : Bytes}

theorem ext2GetInode_eq (hc : c.Mounted) (hn : InFirstBlock c n) (hfit : inodeOffset c n + 8 ≤ 4096) :
    ext2GetInode device c n fresh
      = .ok ⟨n, le32 (inodePage device c n fresh) (inodeOffset c n + 4),
          le16 (inodePage device c n fresh) (inodeOffset c n) &&& 0x4000 ≠ 0, n⟩ := by
  rw [ext2GetInode, ext2LoadInodeToBounce_eq hc hn (Buf.page_size _), ok_bind]
  simp only [Buf.page_byte]
  rw [Nat.add_zero, readU16_eq (by simp only; omega), ok_bind, readU32_eq (by simp only; omega),
    ok_bind, pure_eq_ok]

theorem ext2GetInode_panic (hc : c.Mounted) (hn : ¬ InFirstBlock c n) :
    ext2GetInode device c n fresh = .error (.panic "EXT2: GDT out of bounds") := by
  rw [ext2GetInode, ext2LoadInodeToBounce_panic hc hn, error_bind]

theorem ext2GetInode_outside (hc : c.Mounted) (hn : InFirstBlock c n) (hcross : 4096 < inodeOffset c n + 8) :
    ext2GetInode device c n fresh = .error .outside := by
  rw [ext2GetInode, ext2LoadInodeToBounce_eq hc hn (Buf.page_size _), ok_bind]
  simp only [Buf.page_byte]
  rw [Nat.add_zero]
  by_cases hmode : inodeOffset c n + 1 < 4096
  · rw [readU16_eq (by simp only; omega), ok_bind, readU32_outside (by simp only; omega), error_bind]
  · rw [readU16_outside (by simp only; omega), error_bind]

end Get

end Keuos.Ext2

/-!
### What `mount` does

### Main results

* `mount_eq`: the four ends of a mount, for any bytes on the device.
* `mount_mounted`: the globals after it.
* `mount_wellFormed`: an image of the format is mounted, with the sizes of its superblock.
-/

namespace Keuos.Ext2

section Device

variable {device : Bytes} {c : Config} {fresh : Bytes}

/-- The globals from a superblock. -/
def superConfig (super : Bytes) : Config where
  blockSize := 1024 <<< le32 super 24
  inodesPerGroup := le32 super 40
  blocksPerGroup := le32 super 32
  inodeSize := if le32 super 76 ≥ 1 then le16 super 88 else 128

theorem superInodeSize_eq {bounce : Buf} (hsize : bounce.size = 4096) :
    superInodeSize bounce = .ok (superConfig bounce.byte).inodeSize := by
  rw [superInodeSize, readU32_eq (by omega), ok_bind, superConfig]
  by_cases hrev : le32 bounce.byte 76 ≥ 1
  · simp only [if_pos hrev]
    rw [readU16_eq (by omega)]
  · simp only [if_neg hrev, pure_eq_ok]

theorem initExt2Globals_eq {bounce : Buf} (hsize : bounce.size = 4096) :
    initExt2Globals bounce =
      if le32 bounce.byte 24 > 2 then .error (.panic "EXT2: invalid block size")
      else if le32 bounce.byte 40 = 0 then .error (.panic "EXT2: invalid INODES_PER_GROUP")
      else .ok (superConfig bounce.byte) := by
  rw [initExt2Globals, readU32_eq (by omega), ok_bind]
  by_cases hlog : le32 bounce.byte 24 > 2
  · rw [if_pos hlog, if_pos hlog, throw_eq_error, error_bind]
  · rw [if_neg hlog, if_neg hlog]
    simp only [pure_eq_ok]
    rw [readU32_eq (by omega), ok_bind]
    by_cases hinodes : le32 bounce.byte 40 = 0
    · rw [if_pos hinodes, if_pos hinodes, throw_eq_error, error_bind]
    · rw [if_neg hinodes, if_neg hinodes]
      rw [readU32_eq (by omega), ok_bind, superInodeSize_eq hsize, ok_bind]
      rfl

/-- **A mount ends** with nothing for another magic, with a panic for sizes that the code refuses, or with the
root. -/
theorem mount_eq (hc : c.blockSize = 1024 ∨ c.blockSize = 2048 ∨ c.blockSize = 4096) {super : Bytes}
    (hsuper : super = blockPage device c.blockSize 1 fresh) :
    mount device c fresh =
      if le16 super 56 ≠ 0xEF53 then .ok (none, c)
      else if le32 super 24 > 2 then .error (.panic "EXT2: invalid block size")
      else if le32 super 40 = 0 then .error (.panic "EXT2: invalid INODES_PER_GROUP")
      else .ok (some createExt2RootInode, superConfig super) := by
  have hle : c.blockSize ≤ (Buf.page fresh).size := by
    rw [Buf.page_size]
    omega
  rw [mount, readDiskBlock_of_size hc 1 hle, ok_bind, Buf.page_byte, Buf.page_size, ← hsuper, checkExt2Magic,
    readU16_eq (by simp only; omega), ok_bind, pure_eq_ok, ok_bind]
  simp only
  by_cases hmagic : le16 super 56 = 0xEF53
  · rw [decide_eq_true hmagic, if_neg (not_not.mpr hmagic), initExt2Globals_eq rfl]
    simp only [Bool.not_true, Bool.false_eq_true, if_false]
    by_cases hlog : le32 super 24 > 2
    · rw [if_pos hlog, if_pos hlog, error_bind]
    · rw [if_neg hlog, if_neg hlog]
      by_cases hinodes : le32 super 40 = 0
      · rw [if_pos hinodes, if_pos hinodes, error_bind]
      · rw [if_neg hinodes, if_neg hinodes, ok_bind, pure_eq_ok]
  · rw [decide_eq_false hmagic, if_pos hmagic]
    simp only [Bool.not_false, if_true, pure_eq_ok]

theorem superConfig_mounted {super : Bytes} (hlog : ¬ le32 super 24 > 2) (hinodes : le32 super 40 ≠ 0) :
    (superConfig super).Mounted where
  blockSize_eq := by
    have hcases : le32 super 24 = 0 ∨ le32 super 24 = 1 ∨ le32 super 24 = 2 := by omega
    rcases hcases with h | h | h <;> rw [superConfig] <;> simp only [h, Nat.reduceShiftLeft] <;> simp
  inodes_pos := Nat.pos_of_ne_zero hinodes
  inodeSize_lt := by
    have h := le16_lt super 88
    simp only [superConfig]
    split <;> omega

/-- **The globals after a mount** are ones that the rest of the code can work with. -/
theorem mount_mounted (hc : c.blockSize = 1024 ∨ c.blockSize = 2048 ∨ c.blockSize = 4096) {root : Inode}
    {c' : Config} (hmount : mount device c fresh = .ok (some root, c')) :
    root = createExt2RootInode ∧ c'.Mounted := by
  rw [mount_eq hc rfl] at hmount
  split_ifs at hmount with hmagic hlog hinodes
  · cases hmount
  · have h := Except.ok.inj hmount
    rw [Prod.mk.injEq, Option.some.injEq] at h
    obtain ⟨rfl, rfl⟩ := h
    exact ⟨rfl, superConfig_mounted hlog hinodes⟩

end Device

/-! ### Images of the format -/

section WellFormed

variable {image : Bytes}

/-- The globals for an image. -/
def imageConfig (image : Bytes) : Config where
  blockSize := (geometry image).blockSize
  inodesPerGroup := (geometry image).inodesPerGroup
  blocksPerGroup := le32 image (1024 + 32)
  inodeSize := (geometry image).inodeSize

@[simp] theorem imageConfig_blockSize : (imageConfig image).blockSize = (geometry image).blockSize := rfl

/-- **An image of the format is mounted.** -/
theorem mount_wellFormed (hw : WellFormed image) (fresh : Bytes) :
    mount image .boot fresh = .ok (some createExt2RootInode, imageConfig image) := by
  obtain ⟨super, hsuper⟩ : ∃ super, super = blockPage image 1024 1 fresh := ⟨_, rfl⟩
  have h32 : ∀ a, a + 3 < 1024 → le32 super a = le32 image (1024 + a) := fun a ha => by
    rw [hsuper, le32_blockPage ha, Nat.one_mul]
  have h16 : ∀ a, a + 1 < 1024 → le16 super a = le16 image (1024 + a) := fun a ha => by
    rw [hsuper, le16_blockPage ha, Nat.one_mul]
  have hmagic : le16 super 56 = 0xEF53 := (h16 56 (by omega)).trans hw.magic
  have hlog : le32 super 24 ≤ 2 := (h32 24 (by omega)).trans_le hw.blockSize_le
  have hinodes : 0 < le32 super 40 := hw.inodes_pos.trans_eq (h32 40 (by omega)).symm
  rw [mount_eq (.inl rfl) hsuper, if_neg (not_not.mpr hmagic), if_neg (by omega), if_neg (by omega)]
  refine congrArg Except.ok (congrArg (Prod.mk _) ?_)
  rw [superConfig, h32 24 (by omega), h32 40 (by omega), h32 32 (by omega), h32 76 (by omega),
    h16 88 (by omega),
    Nat.shiftLeft_eq]
  rfl

theorem imageConfig_mounted (hw : WellFormed image) : (imageConfig image).Mounted :=
  (mount_mounted (.inl rfl) (mount_wellFormed hw fun _ => 0)).2

end WellFormed

end Keuos.Ext2

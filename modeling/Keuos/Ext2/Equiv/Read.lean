import Keuos.Ext2.Equiv.Inode

/-!
## Reads of an image of the format

Over an image of the format, the copy of an inode is the inode, and the code's block map is the format's up to
the end of the single indirect block.  The bytes behind that are read as zeros.

## Main results

* `physicalBlock_image`: the block map of the code is that of the format, as far as it goes.
* `ext2Read_image`: what a read of an inode returns.
* `ext2Read_file`: a file is read by its inode, up to the end of the single indirect block.
* `not_ext2Read_file`: a file with a double indirect block is read as zeros.
-/

namespace Keuos.Ext2

/-- The number of the blocks that the code maps. -/
def mappedBlocks (g : Geometry) : Nat := 12 + perBlock g

/-- What the code reads of a file: zeros beyond the single indirect block. -/
def readByte (g : Geometry) (image : Bytes) (n offset : Nat) : UInt8 :=
  if offset / g.blockSize < mappedBlocks g then fileByte g image n offset else 0

/-- The descriptor of the inode's group is in the first block of the table. -/
def DescriptorInFirst (g : Geometry) (n : Nat) : Prop := 32 * groupOf g n + 32 ≤ g.blockSize

instance instDecidableDescriptorInFirst (g : Geometry) (n : Nat) : Decidable (DescriptorInFirst g n) :=
  inferInstanceAs (Decidable (_ ≤ _))

section Image

variable {image : Bytes} (hw : WellFormed image) {n : Nat} (hn : ValidInode (geometry image) image n)
include hw hn

/-! ### The place of an inode -/

omit hw in
theorem inodeIndex_valid : inodeIndex n = n - 1 := by
  have h1 := hn.pos
  have h2 := hn.lt
  rw [inodeIndex]
  omega

omit hw in
theorem inFirstBlock_iff : InFirstBlock (imageConfig image) n ↔ DescriptorInFirst (geometry image) n := by
  rw [InFirstBlock, DescriptorInFirst, inodeGroup, inodeIndex_valid hn, groupOf, Nat.mul_comm]
  rfl

theorem inodeSlot_image :
    inodeSlot (imageConfig image) n = placeOf (geometry image) n * (geometry image).inodeSize := by
  have hc := imageConfig_mounted hw
  have hle : (geometry image).blockSize ≤ 4096 := hc.blockSize_le
  have hpos : 0 < (geometry image).blockSize := hc.blockSize_pos
  have hplace : placeOf (geometry image) n < 8 * 4096 := by
    have h1 := Nat.mod_lt (n - 1) hw.inodes_pos
    have h2 := hw.inodes_le
    rw [placeOf]
    omega
  have hsize : (geometry image).inodeSize ≤ 4096 := (Nat.le_of_dvd hpos hw.inodeSize_dvd).trans hle
  have hprod := Nat.mul_le_mul hplace.le hsize
  rw [inodeSlot, inodeIndex_valid hn]
  exact Nat.mod_eq_of_lt (show placeOf (geometry image) n * (geometry image).inodeSize < 2 ^ 32 by omega)

/-- **The code finds the inode**: its block and its position there are those of its address. -/
theorem inodeBlock_image :
    inodeBlock image (imageConfig image) n * (geometry image).blockSize + inodeOffset (imageConfig image) n
      = inodeAddr (geometry image) image n := by
  have haddr : (if (imageConfig image).blockSize = 1024 then 2 else 1) * (imageConfig image).blockSize
      + (inodeGroup (imageConfig image) n * 32 + 8)
      = descriptorAddr (geometry image) (groupOf (geometry image) n) + 8 := by
    rw [inodeGroup, inodeIndex_valid hn, descriptorAddr, groupOf, Nat.mul_comm _ 32, Nat.add_assoc]
    rfl
  have hblock : inodeBlock image (imageConfig image) n
      = inodeTable (geometry image) image (groupOf (geometry image) n)
        + placeOf (geometry image) n * (geometry image).inodeSize / (geometry image).blockSize := by
    rw [inodeBlock, haddr, inodeSlot_image hw hn]
    exact Nat.mod_eq_of_lt hn.block_lt
  rw [hblock, inodeOffset, inodeSlot_image hw hn, inodeAddr, Nat.add_mul, Nat.add_assoc]
  refine congrArg (inodeTable (geometry image) image (groupOf (geometry image) n)
    * (geometry image).blockSize + ·) ?_
  rw [Nat.mul_comm (_ / _), imageConfig_blockSize, Nat.div_add_mod]

theorem inodeOffset_add_le :
    inodeOffset (imageConfig image) n + (geometry image).inodeSize ≤ (geometry image).blockSize := by
  have hpos : 0 < (geometry image).blockSize := (imageConfig_mounted hw).blockSize_pos
  have hlt : inodeOffset (imageConfig image) n < (geometry image).blockSize :=
    inodeOffset_lt (imageConfig_mounted hw)
  have hdvd : (geometry image).inodeSize ∣ inodeOffset (imageConfig image) n := by
    rw [inodeOffset, inodeSlot_image hw hn]
    exact (Nat.dvd_mod_iff hw.inodeSize_dvd).mpr (Nat.dvd_mul_left _ _)
  obtain ⟨k, hk⟩ := hdvd
  obtain ⟨m, hm⟩ := hw.inodeSize_dvd
  have hsize : 0 < (geometry image).inodeSize := lt_of_lt_of_le (by omega) hw.inodeSize_ge
  have hkm : k < m := by
    rw [hk, hm] at hlt
    exact Nat.lt_of_mul_lt_mul_left hlt
  rw [hk, hm, ← Nat.mul_succ]
  exact Nat.mul_le_mul_left _ hkm

theorem inodeOffset_fits : inodeOffset (imageConfig image) n + 128 ≤ 4096 := by
  have h1 := inodeOffset_add_le hw hn
  have h2 := hw.inodeSize_ge
  have h3 : (geometry image).blockSize ≤ 4096 := (imageConfig_mounted hw).blockSize_le
  omega

/-- **The bytes of the inode** are on the bounce page. -/
theorem inodePage_image (fresh : Bytes) {i : Nat} (hi : i < 128) :
    inodePage image (imageConfig image) n fresh (inodeOffset (imageConfig image) n + i)
      = image (inodeAddr (geometry image) image n + i) := by
  have h1 := inodeOffset_add_le hw hn
  have h2 := hw.inodeSize_ge
  rw [inodePage, blockPage, imageConfig_blockSize, if_pos (by omega), ← inodeBlock_image hw hn, Nat.add_assoc]

theorem inodeCopy_image (fresh under : Bytes) {i : Nat} (hi : i < 128) :
    inodeCopy image (imageConfig image) n fresh under i = image (inodeAddr (geometry image) image n + i) := by
  rw [inodeCopy, if_pos hi, inodePage_image hw hn fresh hi]

theorem le32_inodeCopy (fresh under : Bytes) {a : Nat} (ha : a + 3 < 128) :
    le32 (inodeCopy image (imageConfig image) n fresh under) a =
      le32 image (inodeAddr (geometry image) image n + a) :=
  le32_congr fun i hi => by rw [inodeCopy_image hw hn fresh under (by omega), Nat.add_assoc]

/-! ### The block map -/

/-- **The code's block map is the format's**, with nothing beyond the single indirect block. -/
theorem physicalBlock_image (fresh under : Bytes) (logical : Nat) :
    physicalBlock image (geometry image).blockSize (inodeCopy image (imageConfig image) n fresh under) logical
      = if logical < mappedBlocks (geometry image) then blockMap (geometry image) image n logical else 0 := by
  rw [physicalBlock, blockMap, mappedBlocks, perBlock]
  by_cases hdirect : logical < 12
  · rw [if_pos hdirect, if_pos (by omega)]
    simp only [if_pos hdirect]
    rw [le32_inodeCopy hw hn fresh under (by omega), iBlock]
  · by_cases hsingle : logical < 12 + (geometry image).blockSize / 4
    · rw [if_neg hdirect, if_pos hsingle, if_pos hsingle]
      simp only [if_neg hdirect, if_pos hsingle]
      rw [le32_inodeCopy hw hn fresh under (show 88 + 3 < 128 by omega), pointer, iBlock]
    · rw [if_neg hdirect, if_neg hsingle, if_neg hsingle]

theorem contentByte_image (fresh under : Bytes) (offset : Nat) :
    contentByte image (geometry image).blockSize (inodeCopy image (imageConfig image) n fresh under) offset
      = readByte (geometry image) image n offset := by
  rw [contentByte, physicalBlock_image hw hn, readByte]
  by_cases hmapped : offset / (geometry image).blockSize < mappedBlocks (geometry image)
  · rw [if_pos hmapped, if_pos hmapped, fileByte]
  · rw [if_neg hmapped, if_neg hmapped, if_pos rfl]

/-! ### Reads and inodes -/

/-- **What a read of an inode returns**, for an inode of the file system with this number. -/
theorem ext2Read_image (hgroup : DescriptorInFirst (geometry image) n) (fuel : Nat)
    (inode : Inode) (offset : Nat)
    (buf : Buf) (count : Nat) (pages : ReadPages) (hdata : inode.data = n)
    (hbuf : readCount inode offset count ≤ buf.size) (hfuel : readCount inode offset count < fuel) :
    ext2Read image (imageConfig image) fuel inode offset buf count pages
      = .ok (readCount inode offset count, ⟨buf.size, fun i => if i < readCount inode offset count
          then readByte (geometry image) image n (offset + i) else buf.byte i⟩) := by
  have hmod : inode.data % 2 ^ 32 = n := by rw [hdata, Nat.mod_eq_of_lt hn.lt]
  by_cases hoffset : offset < inode.size
  · rw [ext2Read_eq (imageConfig_mounted hw) hoffset (hmod.symm ▸ (inFirstBlock_iff hn).mpr hgroup)
      (hmod.symm ▸ inodeOffset_fits hw hn) hbuf hfuel, hmod]
    refine congrArg Except.ok (congrArg (Prod.mk _) ?_)
    rw [Buf.mk.injEq]
    refine ⟨rfl, funext fun i => if_congr Iff.rfl ?_ rfl⟩
    exact contentByte_image hw hn _ _ _
  · have hzero : readCount inode offset count = 0 := by
      rw [readCount]
      omega
    rw [ext2Read_past_end (by omega), hzero]
    simp only [Nat.not_lt_zero, if_false]

/-- **The inode that `ext2_get_inode` makes**: the size is the low half of the file's. -/
theorem ext2GetInode_image (hgroup : DescriptorInFirst (geometry image) n) (fresh : Bytes) :
    ext2GetInode image (imageConfig image) n fresh
      = .ok ⟨n, sizeOf (geometry image) image n % 2 ^ 32,
        modeOf (geometry image) image n &&& 0x4000 ≠ 0, n⟩ := by
  have hfit := inodeOffset_fits hw hn
  have hsize : le32 (inodePage image (imageConfig image) n fresh) (inodeOffset (imageConfig image) n + 4)
      = le32 image (inodeAddr (geometry image) image n + 4) :=
    le32_congr fun i hi => by
      rw [Nat.add_assoc, inodePage_image hw hn fresh (by omega), Nat.add_assoc]
  have hmode : le16 (inodePage image (imageConfig image) n fresh) (inodeOffset (imageConfig image) n)
      = modeOf (geometry image) image n :=
    le16_congr fun i hi => inodePage_image hw hn fresh (by omega)
  have hlow : sizeOf (geometry image) image n % 2 ^ 32 =
      le32 image (inodeAddr (geometry image) image n + 4) := by
    have hlt := le32_lt image (inodeAddr (geometry image) image n + 4)
    rw [sizeOf]
    split
    · rw [Nat.add_mul_mod_self_left, Nat.mod_eq_of_lt hlt]
    · rw [Nat.add_zero, Nat.mod_eq_of_lt hlt]
  rw [ext2GetInode_eq (imageConfig_mounted hw) ((inFirstBlock_iff hn).mpr hgroup) (by omega),
    hsize, hmode, hlow]

/-! ### Regular files -/

/-- The inode of a regular file, with the low half of its size. -/
def fileInode (g : Geometry) (image : Bytes) (n : Nat) : Inode := ⟨n, sizeOf g image n % 2 ^ 32, false, n⟩

omit hw hn in
theorem mode_of_regular (hregular : IsRegular (geometry image) image n) :
    modeOf (geometry image) image n &&& 0x4000 = 0 := by
  have h : modeOf (geometry image) image n &&& (0xF000 &&& 0x4000) = 0x8000 &&& 0x4000 := by
    rw [← Nat.and_assoc, hregular]
  exact h

/-- **A regular file is read by its inode.** The number of bytes is that of the count or of the rest of the
file, and the bytes are those of the file in all blocks up to the end of the single indirect block, and zeros
beyond.  Where the inode's descriptor is not in the first block of the table, the kernel panics instead. -/
theorem ext2Read_file {root : Inode} {c : Config} {fresh : Bytes}
    (hmount : mount image .boot fresh = .ok (some root, c)) (hregular : IsRegular (geometry image) image n)
    (fuel offset count : Nat) (buf : Buf) (pages : ReadPages) (hbuf : count ≤ buf.size)
      (hfuel : count < fuel) :
    (DescriptorInFirst (geometry image) n →
      ext2GetInode image c n fresh = .ok (fileInode (geometry image) image n) ∧
      ext2Read image c fuel (fileInode (geometry image) image n) offset buf count pages
        = .ok (min count (sizeOf (geometry image) image n % 2 ^ 32 - offset), ⟨buf.size, fun i =>
            if i < min count (sizeOf (geometry image) image n % 2 ^ 32 - offset)
            then readByte (geometry image) image n (offset + i) else buf.byte i⟩)) ∧
    (¬ DescriptorInFirst (geometry image) n →
      ext2GetInode image c n fresh = .error (.panic "EXT2: GDT out of bounds") ∧
      ∀ inode : Inode, inode.data = n → offset < inode.size →
        ext2Read image c fuel inode offset buf count pages = .error (.panic "EXT2: GDT out of bounds")) := by
  have hc := imageConfig_mounted hw
  rw [mount_wellFormed hw, Except.ok.injEq, Prod.mk.injEq] at hmount
  obtain ⟨-, rfl⟩ := hmount
  refine ⟨fun hgroup => ⟨?_, ?_⟩, fun hgroup => ?_⟩
  · rw [ext2GetInode_image hw hn hgroup, fileInode, mode_of_regular hregular]
    rfl
  · have hcount : readCount (fileInode (geometry image) image n) offset count ≤ count := Nat.min_le_left _ _
    exact ext2Read_image hw hn hgroup fuel _ offset buf count pages rfl (by omega) (by omega)
  · have hpanic := (inFirstBlock_iff hn).not.mpr hgroup
    refine ⟨ext2GetInode_panic hc hpanic, fun inode hdata hoffset => ext2Read_panic hc hoffset ?_⟩
    rw [hdata, Nat.mod_eq_of_lt hn.lt]
    exact hpanic

end Image

/-! ### A file with a double indirect block -/

/-- An image with a file of 274433 bytes, whose last byte is 42 and the only one in its double indirect
block. -/
def largeImage : Bytes := fun a =>
  if a = 1064 then 8 else if a = 1080 then 0x53 else if a = 1081 then 0xEF
  else if a = 2056 then 5
  else if a = 5377 then 0x80 else if a = 5380 then 1 else if a = 5381 then 0x30 else if a = 5382 then 4
  else if a = 5468 then 6 else if a = 6144 then 7 else if a = 7168 then 8 else if a = 8192 then 42
  else 0

theorem wellFormed_largeImage : WellFormed largeImage where
  magic := by decide
  blockSize_le := by decide
  inodes_pos := by decide
  inodes_le := by decide
  inodeSize_ge := by decide
  inodeSize_dvd := by decide

theorem validInode_largeImage : ValidInode (geometry largeImage) largeImage 3 where
  pos := by decide
  lt := by decide
  block_lt := by decide

theorem ext2Read_file_largeImage :
    ext2Read largeImage (imageConfig largeImage) 2 (fileInode (geometry largeImage) largeImage 3) 274432
        (.page fun _ => 7) 1 .clear
      = .ok (min 1 (sizeOf (geometry largeImage) largeImage 3 % 2 ^ 32 - 274432), ⟨4096, fun i =>
          if i < min 1 (sizeOf (geometry largeImage) largeImage 3 % 2 ^ 32 - 274432)
          then readByte (geometry largeImage) largeImage 3 (274432 + i) else 7⟩) :=
  ((ext2Read_file wellFormed_largeImage validInode_largeImage
    (mount_wellFormed wellFormed_largeImage fun _ => 0)
    (show IsRegular (geometry largeImage) largeImage 3 from by unfold IsRegular; decide) 2 274432 1
    (.page fun _ => 7) .clear (by decide) (by decide)).1 (by decide)).2

/-- **Not every file is read as it is**: the last byte of this one is 42, and the read returns a zero. -/
theorem not_ext2Read_file :
    ¬ ∀ (image : Bytes) (n : Nat) (fresh : Bytes) (root inode : Inode) (c : Config) (fuel offset count : Nat)
        (buf : Buf) (pages : ReadPages), WellFormed image → ValidInode (geometry image) image n →
      IsRegular (geometry image) image n → mount image .boot fresh = .ok (some root, c) →
      ext2GetInode image c n fresh = .ok inode → count ≤ buf.size → count < fuel →
      (∃ e, ext2Read image c fuel inode offset buf count pages = .error e) ∨
      ∃ buf', ext2Read image c fuel inode offset buf count pages
          = .ok (min count (sizeOf (geometry image) image n - offset), buf') ∧
        ∀ i < min count (sizeOf (geometry image) image n - offset),
          buf'.byte i = fileByte (geometry image) image n (offset + i) := by
  intro h
  have hgroup : DescriptorInFirst (geometry largeImage) 3 := by decide
  have hregular : IsRegular (geometry largeImage) largeImage 3 := by unfold IsRegular; decide
  obtain ⟨inode, hget, hdata, hsize⟩ : ∃ inode,
      ext2GetInode largeImage (imageConfig largeImage) 3 (fun _ => 0)
      = .ok inode ∧ inode.data = 3 ∧ inode.size = 274433 :=
    ⟨_, ext2GetInode_image wellFormed_largeImage validInode_largeImage hgroup _, rfl, by decide⟩
  have hcount : readCount inode 274432 1 = 1 := by
    rw [readCount, hsize]
    decide
  have hread := ext2Read_image wellFormed_largeImage validInode_largeImage hgroup 2 inode 274432
      (.page fun _ => 7) 1
    .clear hdata (by rw [hcount]; decide) (by rw [hcount]; decide)
  rcases h largeImage 3 (fun _ => 0) _ inode _ 2 274432 1 (.page fun _ => 7) .clear wellFormed_largeImage
    validInode_largeImage hregular (mount_wellFormed wellFormed_largeImage _) hget (by decide)
      (by decide) with
    ⟨e, he⟩ | ⟨buf', hbuf', hbytes⟩
  · rw [hread] at he
    cases he
  · rw [hread, Except.ok.injEq, Prod.mk.injEq] at hbuf'
    have hbyte := hbytes 0 (by decide)
    rw [← hbuf'.2, hcount] at hbyte
    exact absurd hbyte (by decide)

end Keuos.Ext2

import Keuos.Ext2.Equiv.Access
import Keuos.Ext2.Equiv.Read

/-!
## Lookups in the root directory of an image of the format

`mount` fixes the size of the root inode at 4096, whatever that of the root directory is, so a lookup sees the
entries whose positions are below that.  The inode that it returns has the low half of the file's size, and is
a directory where the mode has the bit 0x4000, which block devices and sockets have as well.

## Main results

* `lookup_block`: the loop goes through the entries of one block.
* `lookup_blocks`: the loop finds the entry of the name among the first 4096 bytes, or there is none.
* `vfsLookup_iff`: when exactly a lookup after a mount answers for a name.
* `not_vfsLookup`: an entry behind the first 4096 bytes is not found.
-/

namespace Keuos.Ext2

/-- A path: a slash and the name. -/
def slash (name : Bytes) : Bytes := fun i => if i = 0 then 47 else name (i - 1)

/-- The inode as the format has it. -/
def formatInode (g : Geometry) (image : Bytes) (n : Nat) : Inode :=
  ⟨n, sizeOf g image n, modeOf g image n &&& 0xF000 = 0x4000, n⟩

/-- The result of a lookup is the inode of the directory's entry of the name, and nothing when there is
none. -/
def Answers (g : Geometry) (image : Bytes) (dir : Nat) (name : Bytes) (result : M (Option Inode)) : Prop :=
  (∀ k p m, NamedEntry g image dir name k p m → result = .ok (some (formatInode g image m))) ∧
  ((¬ ∃ k p m, NamedEntry g image dir name k p m) → result = .ok none)

/-- What the code needs of the directory's entry of a name: it is in the first 4096 bytes, and the inode is
one whose descriptor the code has, whose size fits in 32 bits, and which is a directory when its mode has the
bit 0x4000. -/
def Reachable (g : Geometry) (image : Bytes) (dir : Nat) (name : Bytes) : Prop :=
  ∀ k p m, NamedEntry g image dir name k p m → k * g.blockSize + p < 4096 ∧ DescriptorInFirst g m ∧
    sizeOf g image m < 2 ^ 32 ∧ (modeOf g image m &&& 0x4000 ≠ 0 → IsDirectory g image m)

section Image

variable {image : Bytes} (hw : WellFormed image) (hd : Directory (geometry image) image 2)
include hw hd

/-! ### The page of a block -/

omit hd in
theorem blockSize_dvd : (geometry image).blockSize ∣ 4096 := by
  rcases (imageConfig_mounted hw).blockSize_eq with h | h | h <;> rw [imageConfig_blockSize] at h <;> rw [h]
  · exact ⟨4, rfl⟩
  · exact ⟨2, rfl⟩

omit hd in
theorem descriptorInFirst_root : DescriptorInFirst (geometry image) 2 := by
  have hle := Nat.div_le_self (2 - 1) (geometry image).inodesPerGroup
  rcases (imageConfig_mounted hw).blockSize_eq with h | h | h <;> rw [imageConfig_blockSize] at h <;>
    rw [DescriptorInFirst, groupOf, h] <;> omega

/-- **A block of the directory is read as it is.** -/
theorem loadDirBlock_image {fuel k : Nat} (hk : k * (geometry image).blockSize < 4096) (hfuel : 4096 < fuel)
    {bounce : Buf} (hsize : bounce.size = 4096) (pages : ReadPages) :
    ∃ page, loadDirBlock image (imageConfig image) fuel createExt2RootInode
      (k * (geometry image).blockSize) bounce
        pages = .ok page ∧ page.size = 4096 ∧
      ∀ i < (geometry image).blockSize, page.byte i = fileBlock (geometry image) image 2 k i := by
  have hc := imageConfig_mounted hw
  have hpos : 0 < (geometry image).blockSize := hc.blockSize_pos
  have hle : (geometry image).blockSize ≤ 4096 := hc.blockSize_le
  have hfit : k * (geometry image).blockSize + (geometry image).blockSize ≤ 4096 := by
    obtain ⟨r, hr⟩ := blockSize_dvd hw
    rw [hr, Nat.mul_comm] at hk
    rw [hr, Nat.mul_comm, ← Nat.mul_succ]
    exact Nat.mul_le_mul_left _ (Nat.lt_of_mul_lt_mul_left hk)
  have hcount : readCount createExt2RootInode (k * (geometry image).blockSize) (geometry image).blockSize
      = (geometry image).blockSize := by
    rw [readCount, createExt2RootInode]
    simp only
    omega
  have hread := ext2Read_image hw hd.valid (descriptorInFirst_root hw) fuel createExt2RootInode
    (k * (geometry image).blockSize) bounce (geometry image).blockSize pages rfl (by omega) (by omega)
  rw [loadDirBlock_start hc (by rw [imageConfig_blockSize]; exact Nat.mul_mod_left _ _),
    imageConfig_blockSize, hread]
  refine ⟨_, rfl, hsize, fun i hi => ?_⟩
  rw [hcount]
  simp only [if_pos hi]
  have hmapped : (k * (geometry image).blockSize + i) / (geometry image).blockSize < mappedBlocks
      (geometry image) := by
    have hdiv : (k * (geometry image).blockSize + i) / (geometry image).blockSize = k := by
      rw [Nat.mul_comm, Nat.mul_add_div hpos, Nat.div_eq_of_lt hi, Nat.add_zero]
    have hk4 : k < 4 := by
      rcases hc.blockSize_eq with h | h | h <;> rw [imageConfig_blockSize] at h <;> rw [h] at hk <;> omega
    rw [hdiv, mappedBlocks]
    omega
  rw [readByte, if_pos hmapped, fileBlock]

/-! ### The loop -/

section Loop

variable {readFuel : Nat} (hreadFuel : 4096 < readFuel) (name : Bytes) (reads : Nat → ReadPages)
include hreadFuel

/-- The entry at a position of a block is of the name and in use. -/
def InUse (block : Bytes) (name : Bytes) (p : Nat) : Prop := entryInode block p ≠ 0 ∧ EntryNamed block p name

/-- **The loop goes through one block**: it ends at an entry of the name in use, or it comes to the next
block. -/
theorem lookup_block {k p : Nat} {ps : List Nat}
    (hk : k * (geometry image).blockSize + (geometry image).blockSize ≤ 4096)
    (h : Entries (geometry image).blockSize (fileBlock (geometry image) image 2 k) p ps) :
    ∀ (fuel : Nat) (bounce : Buf), bounce.size = 4096 → 4096 - (k * (geometry image).blockSize + p) < fuel →
    (p ≠ 0 → ∀ i < (geometry image).blockSize, bounce.byte i = fileBlock (geometry image) image 2 k i) →
    (∃ q ∈ ps, InUse (fileBlock (geometry image) image 2 k) name q ∧
      ext2LookupLoop image (imageConfig image) readFuel createExt2RootInode name reads fuel
        (k * (geometry image).blockSize + p) bounce =
          .ok (entryInode (fileBlock (geometry image) image 2 k) q)) ∨
    ((∀ q ∈ ps, ¬ InUse (fileBlock (geometry image) image 2 k) name q) ∧
      ∃ fuel' bounce', bounce'.size = 4096 ∧ 4096 - (k + 1) * (geometry image).blockSize < fuel' ∧
        ext2LookupLoop image (imageConfig image) readFuel createExt2RootInode name reads fuel
            (k * (geometry image).blockSize + p) bounce
          = ext2LookupLoop image (imageConfig image) readFuel createExt2RootInode name reads fuel'
            ((k + 1) * (geometry image).blockSize) bounce') := by
  have hc := imageConfig_mounted hw
  have hpos : 0 < (geometry image).blockSize := hc.blockSize_pos
  induction h with
  | done =>
    intro fuel bounce hsize hfuel _
    refine .inr ⟨fun q hq => absurd hq (List.not_mem_nil), fuel, bounce, hsize, ?_, ?_⟩
    · rw [Nat.succ_mul]
      exact hfuel
    · rw [Nat.succ_mul]
  | @entry p rest hlen hdvd hend hname hrest ih =>
    intro fuel bounce hsize hfuel hpage
    have hmod : (k * (geometry image).blockSize + p) % (imageConfig image).blockSize = p := by
      rw [imageConfig_blockSize, Nat.mul_comm, Nat.mul_add_mod, Nat.mod_eq_of_lt (by omega)]
    obtain ⟨fuel, rfl⟩ : ∃ f, fuel = f + 1 := ⟨fuel - 1, by omega⟩
    -- the page holds the block, from before or from now on
    obtain ⟨page, hload, hpageSize, hbytes⟩ : ∃ page, loadDirBlock image (imageConfig image) readFuel
        createExt2RootInode (k * (geometry image).blockSize + p) bounce
        (reads (k * (geometry image).blockSize + p)) = .ok page ∧ page.size = 4096 ∧
        ∀ i < (geometry image).blockSize, page.byte i = fileBlock (geometry image) image 2 k i := by
      by_cases hstart : p = 0
      · subst hstart
        exact loadDirBlock_image hw hd (by omega) hreadFuel hsize _
      · exact ⟨bounce, loadDirBlock_inside hc (by rw [hmod]; exact hstart) _, hsize, hpage hstart⟩
    have hrecLen : entryRecLen page.byte p = entryRecLen (fileBlock (geometry image) image 2 k) p :=
      le16_congr fun i hi => hbytes _ (by omega)
    have hstep := ext2LookupLoop_step name fuel hc
      (show k * (geometry image).blockSize + p < createExt2RootInode.size from by
        rw [createExt2RootInode]; simp only; omega) hload hpageSize (by rw [hmod]; omega)
    rw [hmod, hrecLen, if_neg (by omega), imageConfig_blockSize, entryResult_of_entry hbytes hlen hdvd hend,
      Nat.mod_eq_of_lt (show _ < 2 ^ 64 by omega)] at hstep
    by_cases hfound : InUse (fileBlock (geometry image) image 2 k) name p
    · refine .inl ⟨p, List.mem_cons_self, hfound, ?_⟩
      rw [hstep, if_pos hfound.2, if_pos hfound.1]
    · have hzero : (if EntryNamed (fileBlock (geometry image) image 2 k) p name
          then entryInode (fileBlock (geometry image) image 2 k) p else 0) = 0 := by
        split
        · by_contra hne
          exact hfound ⟨hne, ‹_›⟩
        · rfl
      rw [hzero, if_neg (not_not.mpr rfl), Nat.add_assoc] at hstep
      rw [hstep]
      rcases ih fuel page hpageSize (by omega) (fun _ => hbytes) with ⟨q, hq, huse, hloop⟩ | ⟨hnone, hloop⟩
      · exact .inl ⟨q, List.mem_cons_of_mem _ hq, huse, hloop⟩
      · refine .inr ⟨fun q hq => ?_, hloop⟩
        rcases List.mem_cons.mp hq with rfl | hq
        · exact hfound
        · exact hnone q hq

omit hw hd hreadFuel in
theorem namedEntry_iff {k : Nat} {ps : List Nat}
    (hk : k * (geometry image).blockSize < sizeOf (geometry image) image 2)
    (h : Entries (geometry image).blockSize (fileBlock (geometry image) image 2 k) 0 ps) (p m : Nat) :
    NamedEntry (geometry image) image 2 name k p m ↔
      p ∈ ps ∧ InUse (fileBlock (geometry image) image 2 k) name p ∧
        m = entryInode (fileBlock (geometry image) image 2 k) p := by
  constructor
  · rintro ⟨⟨_, ps', h', hp⟩, rfl, hne, hnamed⟩
    rw [h.unique ps' h']
    exact ⟨hp, ⟨hne, hnamed⟩, rfl⟩
  · rintro ⟨hp, ⟨hne, hnamed⟩, rfl⟩
    exact ⟨⟨hk, ps, h, hp⟩, rfl, hne, hnamed⟩

/-- Behind the end of the directory there are zeros, and the loop ends at a record of no length. -/
theorem lookup_beyond {k : Nat} (hk : k * (geometry image).blockSize < 4096)
    (hbeyond : sizeOf (geometry image) image 2 ≤ k * (geometry image).blockSize) (fuel : Nat) {bounce : Buf}
    (hsize : bounce.size = 4096) :
    ext2LookupLoop image (imageConfig image) readFuel createExt2RootInode name reads (fuel + 1)
      (k * (geometry image).blockSize) bounce = .ok 0 := by
  have hc := imageConfig_mounted hw
  have hpos : 0 < (geometry image).blockSize := hc.blockSize_pos
  have hmin : 1024 ≤ (geometry image).blockSize := by
    rcases hc.blockSize_eq with h | h | h <;> rw [imageConfig_blockSize] at h <;> omega
  obtain ⟨page, hload, hpageSize, hbytes⟩ := loadDirBlock_image hw hd hk hreadFuel hsize
    (reads (k * (geometry image).blockSize))
  have hmod : k * (geometry image).blockSize % (imageConfig image).blockSize = 0 := Nat.mul_mod_left _ _
  have hzero : ∀ i < (geometry image).blockSize, page.byte i = 0 := fun i hi => by
    have hdiv : (k * (geometry image).blockSize + i) / (geometry image).blockSize = k := by
      rw [Nat.mul_comm, Nat.mul_add_div hpos, Nat.div_eq_of_lt hi, Nat.add_zero]
    rw [hbytes i hi, fileBlock, fileByte, hdiv, if_pos (hd.beyond k hbeyond)]
  have hrecLen : entryRecLen page.byte 0 = 0 := by
    rw [entryRecLen, le16, hzero _ (by omega), hzero _ (by omega)]
    rfl
  rw [ext2LookupLoop_step name fuel hc (show _ < createExt2RootInode.size from hk) hload hpageSize
    (by rw [hmod]; omega), hmod, hrecLen, if_pos (by omega)]

/-- **The loop finds the entry of the name** among the first 4096 bytes, or there is none. -/
theorem lookup_blocks (rest : Nat) : ∀ (k fuel : Nat) (bounce : Buf),
    (k + rest) * (geometry image).blockSize = 4096 → bounce.size = 4096 →
    4096 - k * (geometry image).blockSize < fuel →
    ∃ t, ext2LookupLoop image (imageConfig image) readFuel createExt2RootInode name reads fuel
        (k * (geometry image).blockSize) bounce = .ok t ∧
      ((∃ k' p, NamedEntry (geometry image) image 2 name k' p t ∧
        k' * (geometry image).blockSize + p < 4096) ∨
        (t = 0 ∧ ∀ k' p m, k ≤ k' → NamedEntry (geometry image) image 2 name k' p m →
          4096 ≤ k' * (geometry image).blockSize + p)) := by
  have hpos : 0 < (geometry image).blockSize := (imageConfig_mounted hw).blockSize_pos
  induction rest with
  | zero =>
    intro k fuel bounce hk hsize hfuel
    obtain ⟨fuel, rfl⟩ : ∃ f, fuel = f + 1 := ⟨fuel - 1, by omega⟩
    rw [Nat.add_zero] at hk
    refine ⟨0, ext2LookupLoop_end (by rw [hk]; exact le_refl _), .inr ⟨rfl, fun k' p m hkk' _ => ?_⟩⟩
    have h := Nat.mul_le_mul_right (geometry image).blockSize hkk'
    omega
  | succ rest ih =>
    intro k fuel bounce hk hsize hfuel
    have hnext : (k + 1) * (geometry image).blockSize ≤ 4096 := by
      rw [← hk]
      exact Nat.mul_le_mul_right _ (by omega)
    rw [Nat.succ_mul] at hnext
    by_cases hbeyond : sizeOf (geometry image) image 2 ≤ k * (geometry image).blockSize
    · obtain ⟨fuel, rfl⟩ : ∃ f, fuel = f + 1 := ⟨fuel - 1, by omega⟩
      refine ⟨0, lookup_beyond hw hd hreadFuel name reads (by omega) hbeyond fuel hsize, .inr ⟨rfl, ?_⟩⟩
      intro k' p m hkk' hentry
      have h := Nat.mul_le_mul_right (geometry image).blockSize hkk'
      have hlt := hentry.entryAt.1
      omega
    · obtain ⟨ps, hps⟩ := hd.entries k (by omega)
      have hiff := namedEntry_iff name (by omega) hps
      rcases lookup_block hw hd hreadFuel name reads hnext hps fuel bounce hsize (by omega)
        (fun h => absurd rfl h) with
        ⟨q, hq, huse, hloop⟩ | ⟨hnone, fuel', bounce', hsize', hfuel', hloop⟩
      · rw [Nat.add_zero] at hloop
        refine ⟨_, hloop, .inl ⟨k, q, (hiff q _).mpr ⟨hq, huse, rfl⟩, ?_⟩⟩
        have hlt := (hps.lt q hq).2
        omega
      · rw [Nat.add_zero] at hloop
        obtain ⟨t, ht, hresult⟩ := ih (k + 1) fuel' bounce' (by rw [← hk]; congr 1; omega) hsize' hfuel'
        refine ⟨t, hloop.trans ht, hresult.imp_right fun ⟨hzero, hlater⟩ =>
          ⟨hzero, fun k' p m hkk' hentry => ?_⟩⟩
        by_cases hkeq : k' = k
        · subst hkeq
          obtain ⟨hp, huse, -⟩ := (hiff p m).mp hentry
          exact absurd huse (hnone p hp)
        · exact hlater k' p m (by omega) hentry

end Loop

/-! ### Lookups -/

/-- **What a lookup of a path returns**: the inode of the directory's entry of the name when that is among the
first 4096 bytes, and nothing when there is no entry there. -/
theorem vfsLookup_cases {fuel : Nat} (hfuel : 4096 < fuel) (name : Bytes) (pages : LookupPages) :
    (∃ k p m, NamedEntry (geometry image) image 2 name k p m ∧ k * (geometry image).blockSize + p < 4096 ∧
      vfsLookup image (imageConfig image) fuel (some createExt2RootInode) (slash name) pages
        = (ext2GetInode image (imageConfig image) m pages.inode).map some) ∨
    ((∀ k p m, NamedEntry (geometry image) image 2 name k p m → 4096 ≤ k * (geometry image).blockSize + p) ∧
      vfsLookup image (imageConfig image) fuel (some createExt2RootInode) (slash name) pages = .ok none) := by
  have hlookup : vfsLookup image (imageConfig image) fuel (some createExt2RootInode) (slash name) pages
      = ext2Lookup image (imageConfig image) fuel createExt2RootInode name pages := rfl
  obtain ⟨rest, hrest⟩ := blockSize_dvd hw
  obtain ⟨t, ht, hresult⟩ := lookup_blocks hw hd hfuel name pages.reads rest 0 fuel (.page pages.bounce)
    (by rw [Nat.zero_add, Nat.mul_comm, ← hrest]) (Buf.page_size _) (by omega)
  rw [Nat.zero_mul] at ht
  rw [hlookup, ext2Lookup]
  simp only [createExt2RootInode, Bool.not_true, Bool.false_eq_true, if_false]
  rw [createExt2RootInode] at ht
  rw [ht, ok_bind]
  rcases hresult with ⟨k, p, hentry, hlt⟩ | ⟨rfl, hnone⟩
  · refine .inl ⟨k, p, t, hentry, hlt, ?_⟩
    rw [if_neg hentry.inode_ne]
    cases ext2GetInode image (imageConfig image) t pages.inode <;> rfl
  · refine .inr ⟨fun k p m hentry => hnone k p m (Nat.zero_le k) hentry, ?_⟩
    rw [if_pos rfl, pure_eq_ok]

omit hw hd in
theorem mode_of_directory {n : Nat} (h : IsDirectory (geometry image) image n) :
    modeOf (geometry image) image n &&& 0x4000 ≠ 0 := by
  have h' : modeOf (geometry image) image n &&& (0xF000 &&& 0x4000) = 0x4000 &&& 0x4000 := by
    rw [← Nat.and_assoc, h]
  rw [show modeOf (geometry image) image n &&& 0x4000 = 0x4000 from h']
  decide

omit hd in
/-- **The inode is the format's** exactly when its size fits in 32 bits and the flag is that of a
directory. -/
theorem ext2GetInode_eq_formatInode {n : Nat} (hn : ValidInode (geometry image) image n) (fresh : Bytes) :
    ext2GetInode image (imageConfig image) n fresh = .ok (formatInode (geometry image) image n) ↔
      DescriptorInFirst (geometry image) n ∧ sizeOf (geometry image) image n < 2 ^ 32 ∧
        (modeOf (geometry image) image n &&& 0x4000 ≠ 0 → IsDirectory (geometry image) image n) := by
  by_cases hgroup : DescriptorInFirst (geometry image) n
  · rw [ext2GetInode_image hw hn hgroup, formatInode, Except.ok.injEq, Inode.mk.injEq, decide_eq_decide]
    constructor
    · rintro ⟨-, hsize, hmode, -⟩
      exact ⟨hgroup, hsize ▸ Nat.mod_lt _ (by decide), hmode.mp⟩
    · rintro ⟨-, hsize, hmode⟩
      exact ⟨rfl, Nat.mod_eq_of_lt hsize, ⟨hmode, mode_of_directory⟩, rfl⟩
  · rw [ext2GetInode_panic (imageConfig_mounted hw) ((inFirstBlock_iff hn).not.mpr hgroup)]
    simp [hgroup]

/-- **When exactly a lookup answers for a name**: the entry of the name is in the first 4096 bytes of the root
directory, which is the size that `mount` gives to it, and its inode is one that `ext2_get_inode` can
describe. -/
theorem vfsLookup_iff {root : Inode} {c : Config} {fresh : Bytes}
    (hmount : mount image .boot fresh = .ok (some root, c)) {fuel : Nat} (hfuel : 4096 < fuel) (name : Bytes)
    (pages : LookupPages) :
    Answers (geometry image) image 2 name (vfsLookup image c fuel (some root) (slash name) pages) ↔
      Reachable (geometry image) image 2 name := by
  rw [mount_wellFormed hw, Except.ok.injEq, Prod.mk.injEq, Option.some.injEq] at hmount
  obtain ⟨rfl, rfl⟩ := hmount
  rcases vfsLookup_cases hw hd hfuel name pages with ⟨k, p, m, hentry, hlt, hlookup⟩ | ⟨hnone, hlookup⟩
  · have hinode : vfsLookup image (imageConfig image) fuel (some createExt2RootInode) (slash name) pages
        = .ok (some (formatInode (geometry image) image m)) ↔
        ext2GetInode image (imageConfig image) m pages.inode =
          .ok (formatInode (geometry image) image m) := by
      rw [hlookup]
      cases ext2GetInode image (imageConfig image) m pages.inode <;> simp [Except.map]
    rw [ext2GetInode_eq_formatInode hw (hd.targets hentry)] at hinode
    constructor
    · rintro ⟨hanswer, -⟩ k' p' m' hentry'
      obtain ⟨rfl, rfl⟩ := hd.unique hentry hentry'
      obtain rfl : m = m' := hentry.inode_eq.symm.trans hentry'.inode_eq
      exact ⟨hlt, hinode.mp (hanswer k p m hentry)⟩
    · refine fun hreach => ⟨fun k' p' m' hentry' => ?_, fun hnot => absurd ⟨k, p, m, hentry⟩ hnot⟩
      obtain ⟨rfl, rfl⟩ := hd.unique hentry hentry'
      obtain rfl : m = m' := hentry.inode_eq.symm.trans hentry'.inode_eq
      exact hinode.mpr (hreach k p m hentry).2
  · constructor
    · rintro ⟨hanswer, -⟩ k p m hentry
      have h := hanswer k p m hentry
      rw [hlookup] at h
      cases h
    · refine fun hreach => ⟨fun k p m hentry => ?_, fun _ => hlookup⟩
      have h1 := hnone k p m hentry
      have h2 := (hreach k p m hentry).1
      omega

end Image

/-! ### A root directory of five blocks -/

/-- An image whose root directory has a deleted entry in each of its first four blocks, and in the fifth one
an entry of the name `a` for the inode 3. -/
def wideImage : Bytes := fun a =>
  if a = 1064 then 8 else if a = 1080 then 0x53 else if a = 1081 then 0xEF
  else if a = 2056 then 5
  else if a = 5249 then 0x40 else if a = 5253 then 0x14
  else if a = 5288 then 6 else if a = 5292 then 7 else if a = 5296 then 8 else if a = 5300 then 9
  else if a = 5304 then 10 else if a = 5377 then 0x80
  else if a = 6149 then 4 else if a = 7173 then 4 else if a = 8197 then 4 else if a = 9221 then 4
  else if a = 10240 then 3 else if a = 10245 then 4 else if a = 10246 then 1 else if a = 10248 then 97
  else 0

/-- The name `a`. -/
def nameA : Bytes := fun i => if i = 0 then 97 else 0

theorem wellFormed_wideImage : WellFormed wideImage where
  magic := by decide
  blockSize_le := by decide
  inodes_pos := by decide
  inodes_le := by decide
  inodeSize_ge := by decide
  inodeSize_dvd := by decide

theorem sizeOf_wideImage : sizeOf (geometry wideImage) wideImage 2 = 5 * 1024 := by decide

theorem blockSize_wideImage : (geometry wideImage).blockSize = 1024 := by decide

theorem recLen_wideImage : ∀ k < 5, entryRecLen (fileBlock (geometry wideImage) wideImage 2 k) 0 = 1024 := by
  decide +kernel

theorem nameLen_wideImage : ∀ k < 5, entryNameLen (fileBlock (geometry wideImage) wideImage 2 k) 0 ≤ 1 := by
  decide +kernel

theorem entries_wideImage {k : Nat} (hk : k < 5) :
    Entries (geometry wideImage).blockSize (fileBlock (geometry wideImage) wideImage 2 k) 0 [0] := by
  have hrecLen := recLen_wideImage k hk
  have hnameLen := nameLen_wideImage k hk
  refine .entry (by omega) (by rw [hrecLen]; decide) (by rw [hrecLen]; decide) ?_ ?_
  · have hname : ∀ k < 5, ∀ i < entryNameLen (fileBlock (geometry wideImage) wideImage 2 k) 0,
        fileBlock (geometry wideImage) wideImage 2 k (0 + 8 + i) ≠ 0 := by decide +kernel
    exact hname k hk
  · rw [hrecLen, Nat.zero_add, ← blockSize_wideImage]
    exact .done

theorem namedEntry_wideImage {name : Bytes} {k p m : Nat}
    (h : NamedEntry (geometry wideImage) wideImage 2 name k p m) : k = 4 ∧ p = 0 ∧ m = 3 := by
  obtain ⟨⟨hk, ps, hps, hp⟩, hinode, hne, -⟩ := h
  rw [sizeOf_wideImage, blockSize_wideImage] at hk
  have hk5 : k < 5 := by omega
  rw [← (entries_wideImage hk5).unique ps hps, List.mem_singleton] at hp
  subst hp
  have hinodes : ∀ k < 5, entryInode (fileBlock (geometry wideImage) wideImage 2 k) 0 = if k =
      4 then 3 else 0 := by
    decide +kernel
  rw [hinodes k hk5] at hinode
  by_cases hk4 : k = 4
  · rw [if_pos hk4] at hinode
    exact ⟨hk4, rfl, hinode.symm⟩
  · rw [if_neg hk4] at hinode
    exact absurd hinode.symm hne

theorem blockMap_wideImage {k : Nat} (hk : 5 ≤ k) : blockMap (geometry wideImage) wideImage 2 k = 0 := by
  have hdirect : ∀ k < 15, 5 ≤ k → iBlock (geometry wideImage) wideImage 2 k = 0 := by decide +kernel
  rw [blockMap]
  simp only
  split_ifs
  · exact hdirect k (by omega) hk
  · rw [hdirect 12 (by omega) (by omega), pointer, if_pos rfl]
  · rw [hdirect 13 (by omega) (by omega), pointer, pointer, if_pos rfl, if_pos rfl]
  · rw [hdirect 14 (by omega) (by omega), pointer, pointer, pointer, if_pos rfl, if_pos rfl, if_pos rfl]
  · rfl

theorem directory_wideImage : Directory (geometry wideImage) wideImage 2 where
  valid := ⟨by decide, by decide, by decide⟩
  isDirectory := by unfold IsDirectory; decide
  blocks := by rw [sizeOf_wideImage, blockSize_wideImage]; exact ⟨5, rfl⟩
  entries k hk := ⟨[0], entries_wideImage (by rw [sizeOf_wideImage, blockSize_wideImage] at hk; omega)⟩
  beyond k hk := blockMap_wideImage (by rw [sizeOf_wideImage, blockSize_wideImage] at hk; omega)
  targets h := by
    obtain ⟨-, -, rfl⟩ := namedEntry_wideImage h
    exact ⟨by decide, by decide, by decide⟩
  unique h h' := by
    obtain ⟨rfl, rfl, -⟩ := namedEntry_wideImage h
    obtain ⟨rfl, rfl, -⟩ := namedEntry_wideImage h'
    exact ⟨rfl, rfl⟩

/-- The pages of a lookup, all of zeros. -/
def clearLookup : LookupPages := ⟨fun _ => 0, fun _ => .clear, fun _ => 0⟩

theorem vfsLookup_iff_wideImage :
    Answers (geometry wideImage) wideImage 2 nameA (vfsLookup wideImage (imageConfig wideImage) 5000
        (some createExt2RootInode) (slash nameA) clearLookup) ↔
      Reachable (geometry wideImage) wideImage 2 nameA :=
  vfsLookup_iff wellFormed_wideImage directory_wideImage (mount_wellFormed wellFormed_wideImage fun _ => 0)
    (by decide) nameA clearLookup

/-- **Not every entry is found**: that of the fifth block is behind the first 4096 bytes. -/
theorem not_vfsLookup :
    ¬ ∀ (image : Bytes) (fresh : Bytes) (root : Inode) (c : Config) (fuel : Nat) (name : Bytes)
      (pages : LookupPages),
      WellFormed image → Directory (geometry image) image 2 → mount image .boot fresh = .ok (some root, c) →
      4096 < fuel →
      Answers (geometry image) image 2 name (vfsLookup image c fuel (some root) (slash name) pages) := by
  intro h
  have hentry : NamedEntry (geometry wideImage) wideImage 2 nameA 4 0 3 :=
    ⟨⟨by decide, [0], entries_wideImage (by decide),
      List.mem_singleton.mpr rfl⟩, by decide, by decide, by decide⟩
  have hanswer := (h wideImage (fun _ => 0) _ _ 5000 nameA clearLookup wellFormed_wideImage
      directory_wideImage
    (mount_wellFormed wellFormed_wideImage _) (by decide)).1 4 0 3 hentry
  rcases vfsLookup_cases wellFormed_wideImage directory_wideImage (show 4096 < 5000 by decide) nameA
    clearLookup with
    ⟨k, p, m, hfound, hlt, -⟩ | ⟨-, hnone⟩
  · obtain ⟨rfl, rfl, -⟩ := namedEntry_wideImage hfound
    rw [blockSize_wideImage] at hlt
    exact absurd hlt (by decide)
  · rw [hnone] at hanswer
    cases hanswer

end Keuos.Ext2

import Mathlib.Data.Nat.Bitwise
import Mathlib.Tactic.Common

/-!
# The ext2 format

What an image means, apart from any code that reads it: where its inodes are, which block holds a part of a
file, and which entries a directory has.  An image is a function from byte addresses to bytes, and all numbers
in it are little-endian.
-/

namespace Keuos.Ext2

/-- The bytes of an image, of a page or of a name. -/
abbrev Bytes := Nat → UInt8

/-- The number in two bytes. -/
def le16 (f : Bytes) (a : Nat) : Nat := (f a).toNat + 256 * (f (a + 1)).toNat

/-- The number in four bytes. -/
def le32 (f : Bytes) (a : Nat) : Nat :=
  (f a).toNat + 256 * (f (a + 1)).toNat + 65536 * (f (a + 2)).toNat + 16777216 * (f (a + 3)).toNat

/-! ### The superblock -/

/-- The sizes that the superblock fixes. -/
structure Geometry where
  blockSize : Nat
  inodesPerGroup : Nat
  inodeSize : Nat

/-- The superblock is at the address 1024. -/
def geometry (image : Bytes) : Geometry where
  blockSize := 1024 * 2 ^ le32 image (1024 + 24)
  inodesPerGroup := le32 image (1024 + 40)
  inodeSize := if 1 ≤ le32 image (1024 + 76) then le16 image (1024 + 88) else 128

/-- The image has a superblock of the format.  A bitmap of the inodes of a group is one block. -/
structure WellFormed (image : Bytes) : Prop where
  magic : le16 image (1024 + 56) = 0xEF53
  blockSize_le : le32 image (1024 + 24) ≤ 2
  inodes_pos : 0 < (geometry image).inodesPerGroup
  inodes_le : (geometry image).inodesPerGroup ≤ 8 * (geometry image).blockSize
  inodeSize_ge : 128 ≤ (geometry image).inodeSize
  inodeSize_dvd : (geometry image).inodeSize ∣ (geometry image).blockSize

section Files

variable (g : Geometry) (image : Bytes) (n : Nat)

/-! ### Inodes -/

/-- The group of an inode, and its place in the group's table. -/
def groupOf : Nat := (n - 1) / g.inodesPerGroup
def placeOf : Nat := (n - 1) % g.inodesPerGroup

/-- The descriptor of a group.  The table of the descriptors starts at the block behind the superblock. -/
def descriptorAddr (group : Nat) : Nat :=
  (if g.blockSize = 1024 then 2 else 1) * g.blockSize + 32 * group

/-- The first block of the inode table of a group. -/
def inodeTable (group : Nat) : Nat := le32 image (descriptorAddr g group + 8)

def inodeAddr : Nat := inodeTable g image (groupOf g n) * g.blockSize + placeOf g n * g.inodeSize

/-- The number is that of an inode of the image, and so the block that holds it has a 32-bit number. -/
structure ValidInode : Prop where
  pos : 1 ≤ n
  lt : n < 2 ^ 32
  block_lt : inodeTable g image (groupOf g n) + placeOf g n * g.inodeSize / g.blockSize < 2 ^ 32

def modeOf : Nat := le16 image (inodeAddr g image n)

/-- The high half of the size is that of regular files. -/
def sizeOf : Nat :=
  le32 image (inodeAddr g image n + 4) +
    if modeOf g image n &&& 0xF000 = 0x8000 then 2 ^ 32 * le32 image (inodeAddr g image n + 108) else 0

def IsRegular : Prop := modeOf g image n &&& 0xF000 = 0x8000
def IsDirectory : Prop := modeOf g image n &&& 0xF000 = 0x4000

/-! ### The block map -/

/-- The pointers of an inode. -/
def iBlock (j : Nat) : Nat := le32 image (inodeAddr g image n + (40 + 4 * j))

/-- A pointer in an indirect block.  Where there is no such block, there is no block below it. -/
def pointer (block j : Nat) : Nat := if block = 0 then 0 else le32 image (block * g.blockSize + 4 * j)

/-- The number of pointers in a block. -/
def perBlock : Nat := g.blockSize / 4

/-- The block that holds a logical block of the file, or 0 for a hole. -/
def blockMap (logical : Nat) : Nat :=
  let p := perBlock g
  if logical < 12 then iBlock g image n logical
  else if logical < 12 + p then pointer g image (iBlock g image n 12) (logical - 12)
  else if logical < 12 + p + p ^ 2 then
    let l := logical - 12 - p
    pointer g image (pointer g image (iBlock g image n 13) (l / p)) (l % p)
  else if logical < 12 + p + p ^ 2 + p ^ 3 then
    let l := logical - 12 - p - p ^ 2
    pointer g image
      (pointer g image (pointer g image (iBlock g image n 14) (l / p ^ 2)) (l / p % p)) (l % p)
  else 0

/-- A byte of the file. -/
def fileByte (offset : Nat) : UInt8 :=
  if blockMap g image n (offset / g.blockSize) = 0 then 0
  else image (blockMap g image n (offset / g.blockSize) * g.blockSize + offset % g.blockSize)

/-! ### Directories -/

/-- The fields of a directory entry at a position of a block. -/
def entryInode (block : Bytes) (p : Nat) : Nat := le32 block p
def entryRecLen (block : Bytes) (p : Nat) : Nat := le16 block (p + 4)
def entryNameLen (block : Bytes) (p : Nat) : Nat := (block (p + 6)).toNat

/-- The name of an entry, which is a string that ends with a NUL. -/
def EntryNamed (block : Bytes) (p : Nat) (name : Bytes) : Prop :=
  (∀ i < entryNameLen block p, name i = block (p + 8 + i)) ∧ name (entryNameLen block p) = 0

/-- The entries of a block follow each other from a position on to the end of the block. -/
inductive Entries (blockSize : Nat) (block : Bytes) : Nat → List Nat → Prop
  | done : Entries blockSize block blockSize []
  | entry {p : Nat} {rest : List Nat} (hlen : 8 + entryNameLen block p ≤ entryRecLen block p)
      (hdvd : 4 ∣ entryRecLen block p) (hend : p + entryRecLen block p ≤ blockSize)
      (hname : ∀ i < entryNameLen block p, block (p + 8 + i) ≠ 0)
      (hrest : Entries blockSize block (p + entryRecLen block p) rest) :
      Entries blockSize block p (p :: rest)

/-- A block of the file. -/
def fileBlock (k : Nat) : Bytes := fun i => fileByte g image n (k * g.blockSize + i)

/-- Position `p` of block `k` of the directory is that of an entry. -/
def EntryAt (k p : Nat) : Prop :=
  k * g.blockSize < sizeOf g image n ∧ ∃ ps, Entries g.blockSize (fileBlock g image n k) 0 ps ∧ p ∈ ps

/-- There is an entry of the name for the inode `m`.  An entry with the inode 0 is a deleted one. -/
structure NamedEntry (name : Bytes) (k p m : Nat) : Prop where
  entryAt : EntryAt g image n k p
  inode_eq : entryInode (fileBlock g image n k) p = m
  inode_ne : m ≠ 0
  named : EntryNamed (fileBlock g image n k) p name

/-- The inode is that of a directory: whole blocks, each of them full of entries, which have different
names. -/
structure Directory : Prop where
  valid : ValidInode g image n
  isDirectory : IsDirectory g image n
  blocks : g.blockSize ∣ sizeOf g image n
  entries : ∀ k, k * g.blockSize < sizeOf g image n → ∃ ps, Entries g.blockSize (fileBlock g image n k) 0 ps
  beyond : ∀ k, sizeOf g image n ≤ k * g.blockSize → blockMap g image n k = 0
  targets : ∀ {name k p m}, NamedEntry g image n name k p m → ValidInode g image m
  unique : ∀ {name k p m k' p' m'}, NamedEntry g image n name k p m → NamedEntry g image n name k' p' m' →
    k = k' ∧ p = p'

end Files

end Keuos.Ext2

/-!
## `kernel/sys/ext2.salt`: the read-only file system

A page or another buffer has a size and its bytes.  Each access is checked against the size, and a computation
that leaves its buffer stops there.

The block device is a function from byte addresses to bytes, and a request for blocks fills the buffer from
it.  The numbers are natural numbers, with a remainder where the code's 32 or 64 bits can wrap around.  A page
that `pmm.alloc` returns is a parameter: it has some bytes, which nobody has cleared.  The pages of a call are
different: a `pmm.alloc` that is out of memory and answers 0 each time, which the code does not check, is not
modelled.  The bytes of a name go on behind its NUL.

Left out are `pmm.free`, the operations and the reference count of an inode, and what is printed.
-/

namespace Keuos.Ext2

/-! ### Memory that is read and written with a bound -/

/-- Why a computation has ended without a result. -/
inductive Stop
  /-- The kernel has panicked with a message. -/
  | panic (message : String)
  /-- An access was outside of its buffer. -/
  | outside
  /-- A divisor was zero. -/
  | divZero
  /-- A loop was still running. -/
  | endless
  deriving DecidableEq, Repr

abbrev M := Except Stop

/-- A buffer: so many bytes of memory. -/
structure Buf where
  size : Nat
  byte : Bytes

namespace Buf

/-- `buf.offset(a).read()` -/
def read (b : Buf) (a : Nat) : M UInt8 := if a < b.size then .ok (b.byte a) else .error .outside

/-- `buf.offset(a).write(v)` -/
def write (b : Buf) (a : Nat) (v : UInt8) : M Buf :=
  if a < b.size then .ok { b with byte := fun i => if i = a then v else b.byte i } else .error .outside

/-- A page of memory. -/
def page (byte : Bytes) : Buf := ⟨4096, byte⟩

end Buf

/-- `a / b` where the code divides without a check. -/
def quot (a b : Nat) : M Nat := if b = 0 then .error .divZero else .ok (a / b)

/-- `a % b` where the code divides without a check. -/
def remainder (a b : Nat) : M Nat := if b = 0 then .error .divZero else .ok (a % b)

/-! ### Loops over bytes -/

/-- `while i < n { dst[d + i] = src[s + i]; i = i + 1 }`, with `left = n - i`. -/
def copyLoop (src : Buf) (s d i : Nat) : Nat → Buf → M Buf
  | 0, dst => .ok dst
  | left + 1, dst => do
    let v ← src.read (s + i)
    let dst ← dst.write (d + i) v
    copyLoop src s d (i + 1) left dst

/-- `while j < n { buf[j] = 0; j = j + 1 }`, with `left = n - j`. -/
def zeroLoop (j : Nat) : Nat → Buf → M Buf
  | 0, buf => .ok buf
  | left + 1, buf => do
    let buf ← buf.write j 0
    zeroLoop (j + 1) left buf

/-! ### The data of the file system -/

/-- The globals that cache the superblock. -/
structure Config where
  blockSize : Nat
  inodesPerGroup : Nat
  blocksPerGroup : Nat
  inodeSize : Nat
  deriving DecidableEq, Repr

/-- The globals of a kernel that has not mounted a file system. -/
def Config.boot : Config := ⟨1024, 0, 0, 128⟩

/-- `vfs.Inode` -/
structure Inode where
  id : Nat
  size : Nat
  isDir : Bool
  data : Nat
  deriving DecidableEq, Repr

/-- The pages that one call of `ext2_read` allocates: its bounce page, the copy of the inode, and the page for
an indirect block in the round that has read so many bytes. -/
structure ReadPages where
  bounce : Bytes
  inodeBuf : Bytes
  indirect : Nat → Bytes

/-- Pages of zeros. -/
def ReadPages.clear : ReadPages := ⟨fun _ => 0, fun _ => 0, fun _ _ => 0⟩

/-- The pages of one call of `ext2_lookup`: its own, those of the read at an offset, and that for the inode it
has found. -/
structure LookupPages where
  bounce : Bytes
  reads : Nat → ReadPages
  inode : Bytes

/-! ### Numbers and blocks -/

def readU16 (buf : Buf) (offset : Nat) : M Nat := do
  let b0 ← buf.read offset
  let b1 ← buf.read (offset + 1)
  return b0.toNat ||| b1.toNat <<< 8

def readU32 (buf : Buf) (offset : Nat) : M Nat := do
  let b0 ← buf.read offset
  let b1 ← buf.read (offset + 1)
  let b2 ← buf.read (offset + 2)
  let b3 ← buf.read (offset + 3)
  return b0.toNat ||| b1.toNat <<< 8 ||| b2.toNat <<< 16 ||| b3.toNat <<< 24

section Device

variable (device : Bytes) (c : Config)

/-- The device has filled the buffer with `count` sectors of 512 bytes from `lba` on. -/
def submitRequest (lba count : Nat) (buffer : Buf) : M Buf :=
  if 512 * count ≤ buffer.size then
    .ok { buffer with byte := fun i => if i < 512 * count then device (512 * lba + i) else buffer.byte i }
  else .error .outside

def readDiskBlock (blockIdx : Nat) (buf : Buf) : M Buf :=
  submitRequest device (blockIdx * (c.blockSize / 512)) (c.blockSize / 512) buf

/-- The block of the device for a logical block.  Beyond the single indirect block the answer is 0. -/
def getPhysicalBlock (inodeBuf : Buf) (logicalBlock : Nat) (fresh : Bytes) : M Nat :=
  if logicalBlock < 12 then readU32 inodeBuf (40 + logicalBlock * 4)
  else if logicalBlock < 12 + c.blockSize / 4 then do
    let indirectBlock ← readU32 inodeBuf (40 + 12 * 4)
    if indirectBlock = 0 then return 0
    let bounce ← readDiskBlock device c indirectBlock (.page fresh)
    readU32 bounce ((logicalBlock - 12) * 4)
  else .ok 0

/-! ### Inodes -/

/-- `inode_num - 1` on 32 bits. -/
def inodeIndex (inodeNum : Nat) : Nat := (inodeNum + 2 ^ 32 - 1) % 2 ^ 32

def ext2LoadInodeToBounce (inodeNum : Nat) (bounce : Buf) : M (Buf × Nat) := do
  let group ← quot (inodeIndex inodeNum) c.inodesPerGroup
  let index ← remainder (inodeIndex inodeNum) c.inodesPerGroup
  let gdtBlock := if c.blockSize = 1024 then 2 else 1
  let gdtOffset := group * 32
  if gdtOffset + 32 > c.blockSize then throw (.panic "EXT2: GDT out of bounds")
  let bounce ← readDiskBlock device c gdtBlock bounce
  let inodeTableBlock ← readU32 bounce (gdtOffset + 8)
  let blockOffset ← quot (index * c.inodeSize % 2 ^ 32) c.blockSize
  let byteOffset ← remainder (index * c.inodeSize % 2 ^ 32) c.blockSize
  let bounce ← readDiskBlock device c ((inodeTableBlock + blockOffset) % 2 ^ 32) bounce
  return (bounce, byteOffset)

def ext2CopyInode (bounce : Buf) (byteOffset : Nat) (inodeBuf : Buf) : M Buf :=
  copyLoop bounce byteOffset 0 0 128 inodeBuf

/-! ### Reading -/

/-- The block goes to the bounce page, and zeros go there for a block that is not. -/
def loadBlock (pblock : Nat) (bounce : Buf) : M Buf :=
  if pblock ≠ 0 then readDiskBlock device c pblock bounce else zeroLoop 0 c.blockSize bounce

/-- The loop of `ext2_read`, for at most `fuel` rounds. -/
def ext2ReadDataLoop (inodeBuf : Buf) (offset actualCount : Nat) (indirect : Nat → Bytes) :
    Nat → Nat → Buf → Buf → M (Nat × Buf)
  | 0, _, _, _ => .error .endless
  | fuel + 1, bytesRead, buf, bounce =>
    if bytesRead < actualCount then do
      let logicalBlock ← quot (offset + bytesRead) c.blockSize
      let innerBlockOffset ← remainder (offset + bytesRead) c.blockSize
      let pblock ← getPhysicalBlock device c inodeBuf logicalBlock (indirect bytesRead)
      let bounce ← loadBlock device c pblock bounce
      let toRead := min (c.blockSize - innerBlockOffset) (actualCount - bytesRead)
      let buf ← copyLoop bounce innerBlockOffset bytesRead 0 toRead buf
      ext2ReadDataLoop inodeBuf offset actualCount indirect fuel (bytesRead + toRead) buf bounce
    else .ok (bytesRead, buf)

/-- The number of bytes that were read, and the buffer. -/
def ext2Read (fuel : Nat) (inode : Inode) (offset : Nat) (buf : Buf) (count : Nat) (pages : ReadPages) :
    M (Nat × Buf) :=
  if offset ≥ inode.size then .ok (0, buf)
  else do
    let actualCount := if inode.size - offset < count then inode.size - offset else count
    let (bounce, byteOffset) ← ext2LoadInodeToBounce device c (inode.data % 2 ^ 32) (.page pages.bounce)
    let inodeBuf ← ext2CopyInode bounce byteOffset (.page pages.inodeBuf)
    ext2ReadDataLoop device c inodeBuf offset actualCount pages.indirect fuel 0 buf bounce

def ext2GetInode (inodeNum : Nat) (fresh : Bytes) : M Inode := do
  let (bounce, byteOffset) ← ext2LoadInodeToBounce device c inodeNum (.page fresh)
  let mode ← readU16 bounce (byteOffset + 0)
  let size ← readU32 bounce (byteOffset + 4)
  return ⟨inodeNum, size, mode &&& 0x4000 ≠ 0, inodeNum⟩

/-! ### Directories -/

/-- `while i < name_len { if name[i] != entry_name[i] { break; } i = i + 1 }`, with `left = name_len - i`:
whether all bytes were equal. -/
def matchLoop (bounce : Buf) (entryName : Nat) (name : Bytes) (i : Nat) : Nat → M Bool
  | 0 => .ok true
  | left + 1 => do
    let b ← bounce.read (entryName + i)
    if name i ≠ b then return false
    matchLoop bounce entryName name (i + 1) left

/-- The inode of the entry when it is of the name, else 0. -/
def ext2CheckDirEntry (bounce : Buf) (blockOffset : Nat) (name : Bytes) : M Nat := do
  let recLen ← readU16 bounce (blockOffset + 4)
  if recLen < 8 then return 0
  if recLen % 4 ≠ 0 then return 0
  if blockOffset + recLen > c.blockSize then return 0
  let nameLen ← bounce.read (blockOffset + 6)
  if recLen < 8 + nameLen.toNat then return 0
  let inodeNum ← readU32 bounce blockOffset
  if inodeNum = 0 then return 0
  let matched ← matchLoop bounce (blockOffset + 8) name 0 nameLen.toNat
  if matched ∧ name nameLen.toNat = 0 then return inodeNum
  return 0

/-- The page holds the block of the offset when the offset is the start of one. -/
def loadDirBlock (fuel : Nat) (dir : Inode) (offset : Nat) (bounce : Buf) (pages : ReadPages) : M Buf := do
  let blockOffset ← remainder offset c.blockSize
  if blockOffset ≠ 0 then return bounce
  let (_, bounce) ← ext2Read device c fuel dir offset bounce c.blockSize pages
  return bounce

/-- The loop of `ext2_lookup`, for at most `fuel` rounds. -/
def ext2LookupLoop (readFuel : Nat) (dir : Inode) (name : Bytes) (reads : Nat → ReadPages) :
    Nat → Nat → Buf → M Nat
  | 0, _, _ => .error .endless
  | fuel + 1, offset, bounce =>
    if offset < dir.size then do
      let bounce ← loadDirBlock device c readFuel dir offset bounce (reads offset)
      let recLen ← readU16 bounce (offset % c.blockSize + 4)
      if recLen < 8 then return 0
      let inodeNum ← ext2CheckDirEntry c bounce (offset % c.blockSize) name
      if inodeNum ≠ 0 then return inodeNum
      ext2LookupLoop readFuel dir name reads fuel ((offset + recLen) % 2 ^ 64) bounce
    else .ok 0

def ext2Lookup (fuel : Nat) (dir : Inode) (name : Bytes) (pages : LookupPages) : M (Option Inode) := do
  if !dir.isDir then return none
  let target ← ext2LookupLoop device c fuel dir name pages.reads fuel 0 (.page pages.bounce)
  if target = 0 then return none
  let inode ← ext2GetInode device c target pages.inode
  return some inode

/-! ### Mounting -/

/-- The magic is that of the format. -/
def checkExt2Magic (bounce : Buf) : M Bool := do
  let magic ← readU16 bounce 56
  return magic = 0xEF53

/-- `INODE_SIZE`, which the first revision fixes at 128. -/
def superInodeSize (bounce : Buf) : M Nat := do
  let rev ← readU32 bounce 76
  if rev ≥ 1 then readU16 bounce 88 else return 128

def initExt2Globals (bounce : Buf) : M Config := do
  let logBlockSize ← readU32 bounce 24
  if logBlockSize > 2 then throw (.panic "EXT2: invalid block size")
  let inodesPerGroup ← readU32 bounce 40
  if inodesPerGroup = 0 then throw (.panic "EXT2: invalid INODES_PER_GROUP")
  let blocksPerGroup ← readU32 bounce 32
  let inodeSize ← superInodeSize bounce
  return ⟨1024 <<< logBlockSize, inodesPerGroup, blocksPerGroup, inodeSize⟩

def createExt2RootInode : Inode := ⟨2, 4096, true, 2⟩

/-- The root inode, or nothing where the magic is another, and the globals. -/
def mount (fresh : Bytes) : M (Option Inode × Config) := do
  let bounce ← readDiskBlock device c 1 (.page fresh)
  let ok ← checkExt2Magic bounce
  if !ok then return (none, c)
  let c ← initExt2Globals bounce
  return (some createExt2RootInode, c)

/-- `vfs_lookup` over the file system: the path starts with a `/`, and the rest of it is the name. -/
def vfsLookup (fuel : Nat) (root : Option Inode) (path : Bytes) (pages : LookupPages) : M (Option Inode) :=
  match root with
  | none => .ok none
  | some root =>
    if path 0 ≠ 47 then .ok none
    else ext2Lookup device c fuel root (fun i => path (i + 1)) pages

end Device

end Keuos.Ext2

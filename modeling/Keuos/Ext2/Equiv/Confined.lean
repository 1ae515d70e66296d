import Keuos.Ext2.Equiv.Access
import Keuos.Ext2.Equiv.Inode

/-!
## Hostile images

For any bytes on the device: a mount is always confined.  A read is confined unless the copy of its inode
crosses the end of the page, and a lookup unless the copy of the directory's inode does, or the chain of its
records comes to one that begins in the last five bytes of a page, or the inode that it finds crosses the end
of the page.  Nothing of this can happen with blocks below 4096 bytes.  No divisor is zero and no loop is
endless in any case.

## Main results

* `mount_confined`: a mount returns or panics.
* `confined_ext2Read_iff`, `confined_ext2Lookup_iff`: when exactly a read and a lookup are confined.
* `confined_iff`: the three together.
* `readSafe_of_blockSize`, `lookupSafe_of_blockSize`: blocks of 1024 or 2048 bytes are always safe.
* `not_confined`: an inode that crosses the end of the page.
-/

namespace Keuos.Ext2

/-- The computation returns or panics on purpose: no access was outside, no divisor was zero, no loop was
endless. -/
def Confined {α : Type} (result : M α) : Prop :=
  (∃ v, result = .ok v) ∨ ∃ message, result = .error (.panic message)

theorem confined_ok {α : Type} (v : α) : Confined (.ok v : M α) := .inl ⟨v, rfl⟩

theorem confined_panic {α : Type} (message : String) : Confined (.error (.panic message) : M α) :=
  .inr ⟨message, rfl⟩

theorem not_confined_outside {α : Type} : ¬ Confined (.error .outside : M α) := by
  rintro (⟨v, h⟩ | ⟨message, h⟩) <;> cases h

/-! ### Mounts -/

/-- **A mount is confined**, whatever is on the device. -/
theorem mount_confined {device : Bytes} {c : Config}
    (hc : c.blockSize = 1024 ∨ c.blockSize = 2048 ∨ c.blockSize = 4096) (fresh : Bytes) :
    Confined (mount device c fresh) := by
  rw [mount_eq hc rfl]
  split_ifs
  · exact confined_ok _
  · exact confined_panic _
  · exact confined_panic _
  · exact confined_ok _

/-! ### Reads -/

/-- The copy of the inode does not cross the end of the page. -/
def ReadSafe (c : Config) (inode : Inode) (offset : Nat) : Prop :=
  offset < inode.size → InFirstBlock c (inode.data % 2 ^ 32) →
    inodeOffset c (inode.data % 2 ^ 32) + 128 ≤ 4096

section Read

variable {device : Bytes} {c : Config} (hc : c.Mounted)
include hc

/-- **When exactly a read is confined.** -/
theorem confined_ext2Read_iff {fuel offset count : Nat} {inode : Inode} {buf : Buf} {pages : ReadPages}
    (hbuf : count ≤ buf.size) (hfuel : count < fuel) :
    Confined (ext2Read device c fuel inode offset buf count pages) ↔ ReadSafe c inode offset := by
  have hcount : readCount inode offset count ≤ count := Nat.min_le_left _ _
  by_cases hoffset : offset < inode.size
  swap
  · rw [ext2Read_past_end (by omega)]
    exact iff_of_true (confined_ok _) fun h => absurd h hoffset
  by_cases hn : InFirstBlock c (inode.data % 2 ^ 32)
  swap
  · rw [ext2Read_panic hc hoffset hn]
    exact iff_of_true (confined_panic _) fun _ h => absurd h hn
  by_cases hfit : inodeOffset c (inode.data % 2 ^ 32) + 128 ≤ 4096
  · rw [ext2Read_eq hc hoffset hn hfit (by omega) (by omega)]
    exact iff_of_true (confined_ok _) fun _ _ => hfit
  · rw [ext2Read_outside hc hoffset hn (by omega)]
    exact iff_of_false not_confined_outside fun h => hfit (h hoffset hn)

end Read

/-! ### The records of a directory -/

section Walk

variable (device : Bytes) (c : Config) (dir : Inode) (name : Bytes) (reads : Nat → ReadPages)

/-- The page at an offset of the directory.  It is another one than before at the start of a block, and then
what the directory has there. -/
def pageAt (offset : Nat) (under : Bytes) : Bytes := fun i =>
  if offset % c.blockSize = 0 ∧ i < readCount dir offset c.blockSize
  then contentByte device c.blockSize
    (inodeCopy device c (dir.data % 2 ^ 32) (reads offset).bounce (reads offset).inodeBuf) (offset + i)
  else under i

/-- The chain of the directory's records: the first is at 0, and behind a record of at least eight bytes that
is not one of the name there is the next.  With the offset goes the page that holds the record. -/
inductive Chain (under : Bytes) : Nat → Bytes → Prop
  | first (hmore : 0 < dir.size) : Chain under 0 (pageAt device c dir reads 0 under)
  | next {offset : Nat} {page : Bytes} (h : Chain under offset page)
      (hrecLen : 8 ≤ entryRecLen page (offset % c.blockSize))
      (hother : entryResult c.blockSize page (offset % c.blockSize) name = 0)
      (hmore : offset + entryRecLen page (offset % c.blockSize) < dir.size) :
      Chain under (offset + entryRecLen page (offset % c.blockSize))
        (pageAt device c dir reads (offset + entryRecLen page (offset % c.blockSize)) page)

/-- A lookup in the directory is safe: its inode does not cross the end of the page, each record of the chain
has the field of its length on the page, and the inode of the name does not cross the end of the page
either. -/
structure ChainSafe (under : Bytes) : Prop where
  inode : inodeOffset c (dir.data % 2 ^ 32) + 128 ≤ 4096
  records : ∀ {offset page}, Chain device c dir name reads under offset page → offset % c.blockSize + 6 ≤ 4096
  target : ∀ {offset page}, Chain device c dir name reads under offset page →
    8 ≤ entryRecLen page (offset % c.blockSize) →
      entryResult c.blockSize page (offset % c.blockSize) name ≠ 0 →
    InFirstBlock c (entryResult c.blockSize page (offset % c.blockSize) name) →
    inodeOffset c (entryResult c.blockSize page (offset % c.blockSize) name) + 8 ≤ 4096

/-- A lookup is safe where it does not look, where it panics, and where the chain is. -/
def LookupSafe (under : Bytes) : Prop :=
  dir.isDir = true → 0 < dir.size → InFirstBlock c (dir.data % 2 ^ 32) →
    ChainSafe device c dir name reads under

end Walk

/-! ### Lookups -/

section Lookup

variable {device : Bytes} {c : Config} {dir : Inode} {name : Bytes} {reads : Nat → ReadPages} {readFuel : Nat}

theorem Chain.lt {under : Bytes} {offset : Nat} {page : Bytes}
    (h : Chain device c dir name reads under offset page) :
    offset < dir.size := by
  cases h with
  | first hmore => exact hmore
  | next h hrecLen hother hmore => exact hmore

variable (hc : c.Mounted) (hn : InFirstBlock c (dir.data % 2 ^ 32)) (hreadFuel : 4096 < readFuel)
include hc hn hreadFuel

/-- **The page after the load** is that of the chain. -/
theorem loadDirBlock_eq (hfit : inodeOffset c (dir.data % 2 ^ 32) + 128 ≤ 4096) {offset : Nat}
    (hmore : offset < dir.size) (under : Bytes) :
    loadDirBlock device c readFuel dir offset ⟨4096, under⟩ (reads offset)
      = .ok ⟨4096, pageAt device c dir reads offset under⟩ := by
  have hle := hc.blockSize_le
  by_cases hstart : offset % c.blockSize = 0
  · have hcount : readCount dir offset c.blockSize ≤ c.blockSize := Nat.min_le_left _ _
    rw [loadDirBlock_start hc hstart, ext2Read_eq hc hmore hn hfit (by simp only; omega) (by omega)]
    refine congrArg Except.ok ?_
    rw [Buf.mk.injEq]
    refine ⟨rfl, funext fun i => ?_⟩
    rw [pageAt]
    simp only [hstart, true_and]
  · rw [loadDirBlock_inside hc hstart]
    refine congrArg Except.ok ?_
    rw [Buf.mk.injEq]
    refine ⟨rfl, funext fun i => ?_⟩
    rw [pageAt, if_neg (fun h => hstart h.1)]

omit hreadFuel in
theorem lookupLoop_outside_inode (hcross : 4096 < inodeOffset c (dir.data % 2 ^ 32) + 128)
    (hmore : 0 < dir.size)
    {fuel : Nat} {bounce : Buf} :
    ext2LookupLoop device c readFuel dir name reads (fuel + 1) 0 bounce = .error .outside := by
  rw [ext2LookupLoop, if_pos hmore, loadDirBlock_start hc (Nat.zero_mod _),
    ext2Read_outside hc hmore hn hcross]
  rfl

theorem lookupLoop_outside_record (hfit : inodeOffset c (dir.data % 2 ^ 32) + 128 ≤ 4096) {offset : Nat}
    (hmore : offset < dir.size) (hrecord : 4096 < offset % c.blockSize + 6) {fuel : Nat} (under : Bytes) :
    ext2LookupLoop device c readFuel dir name reads (fuel + 1) offset ⟨4096, under⟩ = .error .outside := by
  rw [ext2LookupLoop, if_pos hmore, loadDirBlock_eq hc hn hreadFuel hfit hmore, ok_bind,
    readU16_outside (by simp only; omega), error_bind]

theorem lookupLoop_chain (hfit : inodeOffset c (dir.data % 2 ^ 32) + 128 ≤ 4096) (hsize : dir.size < 2 ^ 32)
    {offset : Nat} (hmore : offset < dir.size) (hrecord : offset % c.blockSize + 6 ≤ 4096) (fuel : Nat)
    {under page : Bytes} (hpage : pageAt device c dir reads offset under = page) :
    ext2LookupLoop device c readFuel dir name reads (fuel + 1) offset ⟨4096, under⟩ =
      if entryRecLen page (offset % c.blockSize) < 8 then .ok 0
      else if entryResult c.blockSize page (offset % c.blockSize) name ≠ 0
        then .ok (entryResult c.blockSize page (offset % c.blockSize) name)
      else ext2LookupLoop device c readFuel dir name reads fuel
        (offset + entryRecLen page (offset % c.blockSize)) ⟨4096, page⟩ := by
  have hload : loadDirBlock device c readFuel dir offset ⟨4096, under⟩ (reads offset) = .ok ⟨4096, page⟩ := by
    rw [loadDirBlock_eq hc hn hreadFuel hfit hmore, hpage]
  have hlen : entryRecLen page (offset % c.blockSize) < 2 ^ 16 := le16_lt _ _
  rw [ext2LookupLoop_step name fuel hc hmore hload rfl hrecord,
    Nat.mod_eq_of_lt (show offset + entryRecLen page (offset % c.blockSize) < 2 ^ 64 by omega)]

/-- **A confined loop comes to each record of the chain.** -/
theorem chain_reached (hfit : inodeOffset c (dir.data % 2 ^ 32) + 128 ≤ 4096) (hsize : dir.size < 2 ^ 32)
    {fuel : Nat} {start : Bytes} (hfuel : dir.size < fuel)
    (hloop : ext2LookupLoop device c readFuel dir name reads fuel 0 ⟨4096, start⟩ ≠ .error .outside)
    {offset : Nat} {page : Bytes} (h : Chain device c dir name reads start offset page) :
    offset % c.blockSize + 6 ≤ 4096 ∧ ∃ fuel' under, dir.size - offset < fuel' + 1 ∧
      pageAt device c dir reads offset under = page ∧
      ext2LookupLoop device c readFuel dir name reads fuel 0 ⟨4096, start⟩
        = ext2LookupLoop device c readFuel dir name reads (fuel' + 1) offset ⟨4096, under⟩ := by
  -- a loop that has come to a record has not left the page there
  have hrecord : ∀ {offset : Nat} {fuel' : Nat} {under : Bytes}, offset < dir.size →
      ext2LookupLoop device c readFuel dir name reads fuel 0 ⟨4096, start⟩
        = ext2LookupLoop device c readFuel dir name reads (fuel' + 1) offset ⟨4096, under⟩ →
      offset % c.blockSize + 6 ≤ 4096 := by
    intro offset fuel' under hmore heq
    by_contra hcross
    exact hloop (heq.trans (lookupLoop_outside_record hc hn hreadFuel hfit hmore (by omega) under))
  induction h with
  | first hmore =>
    obtain ⟨fuel, rfl⟩ : ∃ f, fuel = f + 1 := ⟨fuel - 1, by omega⟩
    exact ⟨hrecord hmore rfl, fuel, start, by omega, rfl, rfl⟩
  | @next offset page h hrecLen hother hmore ih =>
    obtain ⟨hfits, fuel', under, hfuel', hpage, heq⟩ := ih
    have hlt := h.lt
    obtain ⟨fuel', rfl⟩ : ∃ f, fuel' = f + 1 := ⟨fuel' - 1, by omega⟩
    rw [lookupLoop_chain hc hn hreadFuel hfit hsize hlt hfits _ hpage, if_neg (by omega),
      if_neg (not_not.mpr hother)] at heq
    exact ⟨hrecord hmore heq, fuel', page, by omega, rfl, heq⟩

/-- **The loop is confined along a safe chain**, and the inode that it finds is on its page. -/
theorem lookupLoop_of_chainSafe (hsize : dir.size < 2 ^ 32) {start : Bytes}
    (hsafe : ChainSafe device c dir name reads start) (fuel : Nat) : ∀ (offset : Nat) (under : Bytes),
    Chain device c dir name reads start offset (pageAt device c dir reads offset under) →
    dir.size - offset < fuel →
    ∃ t, ext2LookupLoop device c readFuel dir name reads fuel offset ⟨4096, under⟩ = .ok t ∧
      (t ≠ 0 → InFirstBlock c t → inodeOffset c t + 8 ≤ 4096) := by
  induction fuel with
  | zero => intro offset under _ hfuel; omega
  | succ fuel ih =>
    intro offset under h hfuel
    have hlt := h.lt
    obtain ⟨page, hpage⟩ : ∃ page, pageAt device c dir reads offset under = page := ⟨_, rfl⟩
    rw [hpage] at h
    rw [lookupLoop_chain hc hn hreadFuel hsafe.inode hsize hlt (hsafe.records h) fuel hpage]
    by_cases hrecLen : entryRecLen page (offset % c.blockSize) < 8
    · exact ⟨0, if_pos hrecLen, fun hne => absurd rfl hne⟩
    rw [if_neg hrecLen]
    by_cases hother : entryResult c.blockSize page (offset % c.blockSize) name = 0
    swap
    · exact ⟨_, if_pos hother, fun _ => hsafe.target h (by omega) hother⟩
    rw [if_neg (not_not.mpr hother)]
    by_cases hmore : offset + entryRecLen page (offset % c.blockSize) < dir.size
    · exact ih _ _ (.next h (by omega) hother hmore) (by omega)
    · obtain ⟨fuel, rfl⟩ : ∃ f, fuel = f + 1 := ⟨fuel - 1, by omega⟩
      exact ⟨0, ext2LookupLoop_end (by omega), fun hne => absurd rfl hne⟩

end Lookup

section System

variable {device : Bytes} {c : Config}

theorem ext2Lookup_of_loop {fuel : Nat} {dir : Inode} {name : Bytes} {pages : LookupPages} {t : Nat}
    (hdir : dir.isDir = true)
    (hloop : ext2LookupLoop device c fuel dir name pages.reads fuel 0 ⟨4096, pages.bounce⟩ = .ok t) :
    ext2Lookup device c fuel dir name pages
      = if t = 0 then .ok none else (ext2GetInode device c t pages.inode).map some := by
  rw [ext2Lookup, hdir]
  simp only [Bool.not_true, Bool.false_eq_true, if_false, Buf.page]
  rw [hloop, ok_bind]
  split
  · rfl
  · cases ext2GetInode device c t pages.inode <;> rfl

theorem ext2Lookup_of_error {fuel : Nat} {dir : Inode} {name : Bytes} {pages : LookupPages} {e : Stop}
    (hdir : dir.isDir = true)
    (hloop : ext2LookupLoop device c fuel dir name pages.reads fuel 0 ⟨4096, pages.bounce⟩ = .error e) :
    ext2Lookup device c fuel dir name pages = .error e := by
  rw [ext2Lookup, hdir]
  simp only [Bool.not_true, Bool.false_eq_true, if_false, Buf.page]
  rw [hloop, error_bind]

theorem confined_getInode_iff (hc : c.Mounted) (n : Nat) (fresh : Bytes) :
    Confined ((ext2GetInode device c n fresh).map some) ↔
      (InFirstBlock c n → inodeOffset c n + 8 ≤ 4096) := by
  by_cases hn : InFirstBlock c n
  swap
  · rw [ext2GetInode_panic hc hn]
    exact iff_of_true (confined_panic _) fun h => absurd h hn
  by_cases hfit : inodeOffset c n + 8 ≤ 4096
  · rw [ext2GetInode_eq hc hn hfit]
    exact iff_of_true (confined_ok _) fun _ => hfit
  · rw [ext2GetInode_outside hc hn (by omega)]
    exact iff_of_false not_confined_outside fun h => hfit (h hn)

/-- **When exactly a lookup is confined.** -/
theorem confined_ext2Lookup_iff (hc : c.Mounted) {fuel : Nat} {dir : Inode} {name : Bytes}
    {pages : LookupPages}
    (hsize : dir.size < 2 ^ 32) (hfuel : dir.size + 4096 < fuel) :
    Confined (ext2Lookup device c fuel dir name pages) ↔
      LookupSafe device c dir name pages.reads pages.bounce := by
  obtain ⟨rest, hrest⟩ : ∃ f, fuel = f + 1 := ⟨fuel - 1, by omega⟩
  by_cases hdir : dir.isDir = true
  swap
  · rw [Bool.not_eq_true] at hdir
    rw [ext2Lookup, hdir]
    exact iff_of_true (confined_ok _) fun h => absurd (hdir.symm.trans h) (by decide)
  by_cases hmore : 0 < dir.size
  swap
  · rw [ext2Lookup_of_loop (t := 0) hdir (by rw [hrest]; exact ext2LookupLoop_end (by omega)), if_pos rfl]
    exact iff_of_true (confined_ok _) fun _ h => absurd h hmore
  by_cases hn : InFirstBlock c (dir.data % 2 ^ 32)
  swap
  · have hpanic : ext2LookupLoop device c fuel dir name pages.reads fuel 0 ⟨4096, pages.bounce⟩
        = .error (.panic "EXT2: GDT out of bounds") := by
      rw [hrest, ext2LookupLoop, if_pos hmore, loadDirBlock_start hc (Nat.zero_mod _),
        ext2Read_panic hc hmore hn]
      rfl
    rw [ext2Lookup_of_error hdir hpanic]
    exact iff_of_true (confined_panic _) fun _ _ h => absurd h hn
  by_cases hfit : inodeOffset c (dir.data % 2 ^ 32) + 128 ≤ 4096
  swap
  · have houtside : ext2LookupLoop device c fuel dir name pages.reads fuel 0 ⟨4096, pages.bounce⟩
        = .error .outside := by
      rw [hrest]
      exact lookupLoop_outside_inode hc hn (by omega) hmore
    rw [ext2Lookup_of_error hdir houtside]
    exact iff_of_false not_confined_outside fun h => hfit (h hdir hmore hn).inode
  constructor
  · intro hconfined _ _ _
    have hloop : ext2LookupLoop device c fuel dir name pages.reads fuel 0 ⟨4096, pages.bounce⟩
        ≠ .error .outside := fun h => not_confined_outside (ext2Lookup_of_error hdir h ▸ hconfined)
    refine ⟨hfit, fun h => (chain_reached hc hn (by omega) hfit hsize (by omega) hloop h).1, ?_⟩
    intro offset page h hrecLen hfound
    -- the loop gets to the record, so the record itself is inside
    obtain ⟨hrecord, fuel', under, -, hpage, heq⟩ :=
        chain_reached hc hn (by omega) hfit hsize (by omega) hloop h
    rw [lookupLoop_chain hc hn (by omega) hfit hsize h.lt hrecord fuel' hpage, if_neg (by omega),
      if_pos hfound] at heq
    rw [ext2Lookup_of_loop hdir heq, if_neg hfound] at hconfined
    exact (confined_getInode_iff hc _ _).mp hconfined
  · intro hsafe
    obtain ⟨t, ht, htarget⟩ := lookupLoop_of_chainSafe hc hn (show 4096 < fuel by omega) hsize
        (hsafe hdir hmore hn)
      fuel 0 pages.bounce (.first hmore) (by omega)
    rw [ext2Lookup_of_loop hdir ht]
    by_cases hzero : t = 0
    · rw [if_pos hzero]
      exact confined_ok _
    · rw [if_neg hzero]
      exact (confined_getInode_iff hc _ _).mpr (htarget hzero)

/-! ### The whole file system -/

/-- The inodes that the file system has made: the root, and what `ext2_get_inode` returns. -/
inductive Issued (device : Bytes) (c : Config) : Inode → Prop
  | root : Issued device c createExt2RootInode
  | made {n : Nat} {fresh : Bytes} {inode : Inode} (h : ext2GetInode device c n fresh = .ok inode) :
      Issued device c inode

theorem Issued.size_lt (hc : c.Mounted) {inode : Inode}
    (h : Issued device c inode) : inode.size < 2 ^ 32 := by
  cases h with
  | root => decide
  | @made n fresh inode h =>
    by_cases hn : InFirstBlock c n
    swap
    · rw [ext2GetInode_panic hc hn] at h
      cases h
    by_cases hfit : inodeOffset c n + 8 ≤ 4096
    · rw [ext2GetInode_eq hc hn hfit] at h
      rw [← Except.ok.inj h]
      exact le32_lt _ _
    · rw [ext2GetInode_outside hc hn (by omega)] at h
      cases h

/-- **When exactly the file system is confined.** A mount always is.  After it a lookup in a directory is
confined if and only if the directory's chain of records is safe, and a read if and only if the copy of its
inode does not cross the end of the page. -/
theorem confined_iff (device : Bytes) {before : Config}
    (hbefore : before.blockSize = 1024 ∨ before.blockSize = 2048 ∨ before.blockSize = 4096) (fresh : Bytes) :
    Confined (mount device before fresh) ∧
    ∀ (root : Inode) (c : Config), mount device before fresh = .ok (some root, c) →
      (∀ (dir : Inode) (name : Bytes) (pages : LookupPages) (fuel : Nat), Issued device c dir →
        dir.size + 4096 < fuel →
        (Confined (ext2Lookup device c fuel dir name pages) ↔
          LookupSafe device c dir name pages.reads pages.bounce)) ∧
      ∀ (inode : Inode) (offset count : Nat) (buf : Buf) (pages : ReadPages) (fuel : Nat), count ≤ buf.size →
        count < fuel →
        (Confined (ext2Read device c fuel inode offset buf count pages) ↔ ReadSafe c inode offset) := by
  refine ⟨mount_confined hbefore fresh, fun root c hmount => ?_⟩
  have hc := (mount_mounted hbefore hmount).2
  refine ⟨fun dir name pages fuel hdir hfuel => ?_, fun inode offset count buf pages fuel hbuf hfuel => ?_⟩
  · exact confined_ext2Lookup_iff hc (hdir.size_lt hc) hfuel
  · exact confined_ext2Read_iff hc hbuf hfuel

/-! ### Small blocks -/

/-- **Blocks below 4096 bytes are safe**: what begins in such a block ends on the page. -/
theorem readSafe_of_blockSize (hc : c.Mounted) (hsmall : c.blockSize ≠ 4096) (inode : Inode) (offset : Nat) :
    ReadSafe c inode offset := by
  intro _ _
  have hlt := inodeOffset_lt hc (n := inode.data % 2 ^ 32)
  have hsize := hc.blockSize_eq
  omega

theorem lookupSafe_of_blockSize (hc : c.Mounted) (hsmall : c.blockSize ≠ 4096) (dir : Inode) (name : Bytes)
    (reads : Nat → ReadPages) (under : Bytes) : LookupSafe device c dir name reads under := by
  intro _ _ _
  have hsize := hc.blockSize_eq
  refine ⟨?_, fun {offset page} _ => ?_, fun {offset page} _ _ _ _ => ?_⟩
  · have hlt := inodeOffset_lt hc (n := dir.data % 2 ^ 32)
    omega
  · have hlt := Nat.mod_lt offset hc.blockSize_pos
    omega
  · have hlt := inodeOffset_lt hc (n := entryResult c.blockSize page (offset % c.blockSize) name)
    omega

end System

/-! ### An inode that crosses the end of the page -/

/-- A superblock with blocks of 4096 bytes, eight inodes in a group, and inodes of 3970 bytes. -/
def hostileImage : Bytes := fun a =>
  if a = 1048 then 2 else if a = 1064 then 8 else if a = 1080 then 0x53 else if a = 1081 then 0xEF
  else if a = 1100 then 1 else if a = 1112 then 0x82 else if a = 1113 then 0x0F else 0

/-- Its globals. -/
def hostileConfig : Config := ⟨4096, 8, 0, 3970⟩

theorem mount_hostileImage :
    mount hostileImage .boot (fun _ => 0) = .ok (some createExt2RootInode, hostileConfig) := by
  rw [mount_eq (.inl rfl) rfl]
  rfl

theorem confined_iff_hostileImage :
    Confined (ext2Read hostileImage hostileConfig 2 createExt2RootInode 0 (.page fun _ => 0) 1 .clear) ↔
      ReadSafe hostileConfig createExt2RootInode 0 :=
  ((confined_iff hostileImage (.inl rfl) fun _ => 0).2 _ _ mount_hostileImage).2 createExt2RootInode 0 1
    (.page fun _ => 0) .clear 2 (by decide) (by decide)

/-- **Not every image is confined**: the root inode of this one begins at 3970 in its block, and the copy of
its 128 bytes goes on behind the page. -/
theorem not_confined :
    ¬ ∀ (device : Bytes) (before : Config) (fresh : Bytes),
      (before.blockSize = 1024 ∨ before.blockSize = 2048 ∨ before.blockSize = 4096) →
      Confined (mount device before fresh) ∧
      ∀ (root : Inode) (c : Config), mount device before fresh = .ok (some root, c) →
        (∀ (dir : Inode) (name : Bytes) (pages : LookupPages) (fuel : Nat), Issued device c dir →
          dir.size + 4096 < fuel → Confined (ext2Lookup device c fuel dir name pages)) ∧
        ∀ (inode : Inode) (offset count : Nat) (buf : Buf) (pages : ReadPages) (fuel : Nat),
            count ≤ buf.size →
          count < fuel → Confined (ext2Read device c fuel inode offset buf count pages) := by
  intro h
  have hread := ((h hostileImage .boot (fun _ => 0) (.inl rfl)).2 _ _ mount_hostileImage).2
      createExt2RootInode 0 1
    (.page fun _ => 0) .clear 2 (by decide) (by decide)
  have hmounted := (mount_mounted (.inl rfl) mount_hostileImage).2
  rw [ext2Read_outside hmounted (by decide) (by decide) (by decide)] at hread
  exact not_confined_outside hread

end Keuos.Ext2

import Keuos.Process.Spawn
import Keuos.Syscall.Equiv.UserCopy

/-!
# What a spawn reads of its manifest

`translate_user_addr` returns the address of a byte, page offset included, and `ring_spawn` adds the offset
once more.  So it reads the manifest, and loads the image, as far behind the address it means as that address
is behind the start of its page.

## Main results

* `ringSpawnCall_reads_iff`: the two words and the image are those that the process sees exactly when the
  offset does no harm.
-/

namespace Keuos.Spawn

open Process Paging Syscall
open Pmm (physToVirt)
open Serial (isValidUserPtr)

/-! ### What the process sees -/

/-- The memory that the process sees. -/
def userView (m : Mem) (root : UInt64) : Mem := fun v => m (kernAddr m root v)

/-- The two words of a manifest, as `ring_spawn` has read them. -/
def SpawnCall.words : SpawnCall → Option (UInt64 × UInt64)
  | .unread => none
  | .refused elfVaddr namespaceFlags => some (elfVaddr, namespaceFlags)
  | .spawns elfVaddr namespaceFlags _ => some (elfVaddr, namespaceFlags)

/-- The address that is passed to `spawn_process`. -/
def SpawnCall.image : SpawnCall → Option UInt64
  | .spawns _ _ elfKernVa => some elfKernVa
  | _ => none

/-- The words of the manifest are those that the process sees, and an image is passed on exactly when the
process sees a byte at its address, which is then the byte passed. -/
structure ReadsManifest (m : Mem) (root v : UInt64) : Prop where
  words : (ringSpawnCall m root v).words =
    some ((userView m root).read64 v, (userView m root).read64 (v + 8))
  passed : InUserHalf ((userView m root).read64 v) 1 → Mapped m root ((userView m root).read64 v) →
    (ringSpawnCall m root v).image = some (kernAddr m root ((userView m root).read64 v))
  refused : ¬(InUserHalf ((userView m root).read64 v) 1 ∧ Mapped m root ((userView m root).read64 v)) →
    (ringSpawnCall m root v).image = none

/-- The offset that is added twice does no harm: neither page has the frame 0 and is taken for a fault, the
manifest starts a page, or its bytes are repeated where the kernel reads them, and the image starts a page. -/
structure ManifestFits (m : Mem) (root v : UInt64) : Prop where
  frame : ¬AtZero m root v
  manifest : v &&& 0xFFF = 0 ∨ ∀ i < 16,
    m (kernAddr m root v + (v &&& 0xFFF) + UInt64.ofNat i) = userView m root (v + UInt64.ofNat i)
  image : InUserHalf ((userView m root).read64 v) 1 → Mapped m root ((userView m root).read64 v) →
    (userView m root).read64 v &&& 0xFFF = 0 ∧ ¬AtZero m root ((userView m root).read64 v)

section Reads

variable {m : Mem} {root v : UInt64}

theorem words_eq_iff {m' : Mem} {a b : UInt64} :
    (m.read64 a = m'.read64 b ∧ m.read64 (a + 8) = m'.read64 (b + 8)) ↔
      ∀ i < 16, m (a + UInt64.ofNat i) = m' (b + UInt64.ofNat i) := by
  rw [Mem.read64_eq_iff, Mem.read64_eq_iff]
  have hoff : ∀ (c : UInt64) (i : Nat), c + 8 + UInt64.ofNat i = c + UInt64.ofNat (8 + i) := by
    intro c i
    rw [UInt64.ofNat_add, ← UInt64.add_assoc]
    rfl
  constructor
  · rintro ⟨hlow, hhigh⟩ i hi
    by_cases hlt : i < 8
    · exact hlow i hlt
    · have hbyte := hhigh (i - 8) (by omega)
      rw [hoff, hoff, Nat.add_sub_cancel' (Nat.not_lt.mp hlt)] at hbyte
      exact hbyte
  · intro h
    refine ⟨fun i hi => h i (by omega), fun i hi => ?_⟩
    rw [hoff, hoff]
    exact h (8 + i) (by omega)

theorem manifest_of_aligned (hmapped : Mapped m root v) (hframe : ¬AtZero m root v) (hv : v &&& 0xFFF = 0)
    {i : Nat} (hi : i < 16) :
    m (kernAddr m root v + (v &&& 0xFFF) + UInt64.ofNat i) = userView m root (v + UInt64.ofNat i) := by
  have hoff : v.toNat % 4096 = 0 := by
    rw [← toNat_and_pageMask, hv, UInt64.toNat_zero]
  have hne : translateUserAddr m root v ≠ 0 := translate_ne_zero_iff.mpr ⟨hmapped, hframe⟩
  have hadd : translateUserAddr m root (v + UInt64.ofNat i) = translateUserAddr m root v + UInt64.ofNat i :=
    (translateUserAddr_add (by omega) hne).1
  unfold userView kernAddr
  rw [hadd, hv, UInt64.add_zero, physToVirt_add]

theorem words_ringSpawnCall (hrange : InUserHalf v 16) (htranslate : translateUserAddr m root v ≠ 0) :
    (ringSpawnCall m root v).words = some (m.read64 (kernAddr m root v + (v &&& 0xFFF)),
      m.read64 (kernAddr m root v + (v &&& 0xFFF) + 8)) := by
  have hvalid : isValidUserPtr v 16 = true := (isValidUserPtr_iff v 16).mpr hrange
  unfold ringSpawnCall
  rw [hvalid, Bool.not_true, if_neg Bool.false_ne_true, if_neg (by simpa using htranslate)]
  dsimp only
  split_ifs <;> rfl

theorem image_ringSpawnCall {elf : UInt64} (hrange : InUserHalf v 16)
    (htranslate : translateUserAddr m root v ≠ 0)
    (helf : m.read64 (kernAddr m root v + (v &&& 0xFFF)) = elf) :
    (ringSpawnCall m root v).image =
      if isValidUserPtr elf 1 = true ∧ translateUserAddr m root elf ≠ 0 then
        some (kernAddr m root elf + (elf &&& 0xFFF))
      else none := by
  have hvalid : isValidUserPtr v 16 = true := (isValidUserPtr_iff v 16).mpr hrange
  have hword : m.read64 (physToVirt (translateUserAddr m root v) + (v &&& 0xFFF)) = elf := helf
  unfold ringSpawnCall
  rw [hvalid, Bool.not_true, if_neg Bool.false_ne_true, if_neg (by simpa using htranslate)]
  dsimp only
  rw [hword]
  by_cases hptr : isValidUserPtr elf 1 = true
  · by_cases hzero : translateUserAddr m root elf = 0
    · simp [hptr, hzero, SpawnCall.image]
    · simp [hptr, hzero, SpawnCall.image, kernAddr]
  · simp [hptr, SpawnCall.image]

/-- **Spawn manifests** in a mapped range of the user half are read as the process sees them, and so is the
image, exactly when the offset that is added twice does no harm. -/
theorem ringSpawnCall_reads_iff (m : Mem) (root v : UInt64) (hrange : InUserHalf v 16)
    (hmapped : ∀ i < 16, Mapped m root (v + UInt64.ofNat i)) :
    ReadsManifest m root v ↔ ManifestFits m root v := by
  have hfirst : Mapped m root v := by
    have hzero := hmapped 0 (by omega)
    rwa [show UInt64.ofNat 0 = 0 from rfl, UInt64.add_zero] at hzero
  have hpassed : ∀ elf, isValidUserPtr elf 1 = true ∧ translateUserAddr m root elf ≠ 0 ↔
      (InUserHalf elf 1 ∧ Mapped m root elf) ∧ ¬AtZero m root elf := by
    intro elf
    rw [isValidUserPtr_iff, translate_ne_zero_iff, and_assoc]
  constructor
  · rintro ⟨hwords, himage, -⟩
    have hframe : translateUserAddr m root v ≠ 0 := by
      intro hzero
      simp [ringSpawnCall, hzero, SpawnCall.words] at hwords
    rw [words_ringSpawnCall hrange hframe] at hwords
    obtain ⟨helf, hflags⟩ := Prod.mk.inj (Option.some.inj hwords)
    have hbytes := words_eq_iff.mp ⟨helf, hflags⟩
    refine ⟨(translate_ne_zero_iff.mp hframe).2, .inr hbytes, ?_⟩
    intro hhalf hmap
    have hpass := himage hhalf hmap
    rw [image_ringSpawnCall hrange hframe helf] at hpass
    split_ifs at hpass with hok
    · refine ⟨?_, ((hpassed _).mp hok).2⟩
      exact UInt64.add_eq_left.mp (Option.some.inj hpass)
  · rintro ⟨hframe, hmanifest, himage⟩
    have htranslate : translateUserAddr m root v ≠ 0 := translate_ne_zero_iff.mpr ⟨hfirst, hframe⟩
    have hbytes : ∀ i < 16,
        m (kernAddr m root v + (v &&& 0xFFF) + UInt64.ofNat i) = userView m root (v + UInt64.ofNat i) := by
      rcases hmanifest with hv | hbytes
      · exact fun i hi => manifest_of_aligned hfirst hframe hv hi
      · exact hbytes
    obtain ⟨helf, hflags⟩ := words_eq_iff.mpr hbytes
    refine ⟨?_, ?_, ?_⟩
    · rw [words_ringSpawnCall hrange htranslate, helf, hflags]
    · intro hhalf hmap
      obtain ⟨hoff, hzero⟩ := himage hhalf hmap
      rw [image_ringSpawnCall hrange htranslate helf, if_pos ((hpassed _).mpr ⟨⟨hhalf, hmap⟩, hzero⟩), hoff,
        UInt64.add_zero]
    · intro hnone
      rw [image_ringSpawnCall hrange htranslate helf, if_neg fun h => hnone ((hpassed _).mp h).1]

end Reads

/-! ### A manifest behind the start of its page -/

/-- The process with two pages, and a manifest at `0x400008`. -/
def manifestMem : Mem :=
  ((twoPages 0x5000).vm.mem.write64 (physToVirt 0x5008) 0x400000).write64 (physToVirt 0x5010) 3

theorem mapped_manifestMem {v : UInt64} (hv : v = 0x400008 ∨ v = 0x400FF8) :
    ∀ i < 16, Mapped manifestMem 0x1000 (v + UInt64.ofNat i) := by
  show ∀ i < 16, getUserPte manifestMem 0x1000 (v + UInt64.ofNat i) &&& ptePresent ≠ 0
  rcases hv with rfl | rfl <;> decide +kernel

/-- A manifest over the end of a page. -/
theorem ringSpawnCall_reads_iff_straddling :
    ReadsManifest manifestMem 0x1000 0x400FF8 ↔ ManifestFits manifestMem 0x1000 0x400FF8 :=
  ringSpawnCall_reads_iff manifestMem 0x1000 0x400FF8 ⟨by decide, by decide⟩ (mapped_manifestMem (.inr rfl))

/-- **A manifest at the offset 8** of its page is read at the offset 16. -/
theorem not_ringSpawnCall_reads : ¬ ∀ (m : Mem) (root v : UInt64), InUserHalf v 16 →
    (∀ i < 16, Mapped m root (v + UInt64.ofNat i)) → ReadsManifest m root v := by
  intro h
  have hread := h manifestMem 0x1000 0x400008 ⟨by decide, by decide⟩ (mapped_manifestMem (.inl rfl))
  have hcode : (ringSpawnCall manifestMem 0x1000 0x400008).words = some (3, 0) := by decide +kernel
  have hseen : (userView manifestMem 0x1000).read64 0x400008 = 0x400000 := by decide +kernel
  have hwords := hread.words
  rw [hcode, hseen] at hwords
  simp at hwords

end Keuos.Spawn

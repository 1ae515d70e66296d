import Keuos.Nvme.Defs
import Mathlib.Tactic.IntervalCases

/-!
# What a command does

The driver packs the block address, the count and the slot into the words of a command, and the controller
unpacks them.  `perform_command` is the round trip: a command does what its request asks for.
-/

namespace Keuos.Nvme

/-- A request for at most one page. -/
def BlockRequest.Fits (req : BlockRequest) : Prop :=
  1 ≤ req.count.toNat ∧ req.count.toNat ≤ 8

/-- The command of a request. -/
def command (req : BlockRequest) (reqId : Nat) (bouncePhys : UInt64) : SqEntry :=
  blockCmd (if req.isWrite then 0x01 else 0x02) req.lba bouncePhys req.count.toUInt16 (UInt16.ofNat reqId)

/-- The id of a command, as its completion has it. -/
def cmdId (cmd : SqEntry) : Nat := (cmd.cdw0 >>> 16).toUInt16.toNat

theorem submitBlock_eq (ctrl : NvmeController) (req : BlockRequest) (reqId : Nat) (bouncePhys : UInt64) :
    submitBlock ctrl req reqId bouncePhys = submitIoCmd ctrl (command req reqId bouncePhys) := by
  unfold submitBlock command
  cases req.isWrite
  · rfl
  · rfl

section Command

variable {req : BlockRequest} {r : Nat}

theorem unpack_cdw0 (isWrite : Bool) : ∀ r < 32,
    (((if isWrite then 0x01 else 0x02 : UInt32) ||| ((UInt16.ofNat r).toUInt32 <<< 16)) >>> 16).toUInt16.toNat
      = r ∧
    ((if isWrite then 0x01 else 0x02 : UInt32) ||| ((UInt16.ofNat r).toUInt32 <<< 16)) &&& 0xFF =
      if isWrite then 0x01 else 0x02 := by
  cases isWrite
  · decide
  · decide

theorem cmdId_command (hr : r < 32) (bouncePhys : UInt64) : cmdId (command req r bouncePhys) = r :=
  (unpack_cdw0 req.isWrite r hr).1

theorem opcode_command (hr : r < 32) (bouncePhys : UInt64) :
    (command req r bouncePhys).cdw0 &&& 0xFF = if req.isWrite then 0x01 else 0x02 :=
  (unpack_cdw0 req.isWrite r hr).2

theorem lba_command (bouncePhys : UInt64) :
    (command req r bouncePhys).cdw10.toNat + (command req r bouncePhys).cdw11.toNat * 2 ^ 32 =
      req.lba.toNat := by
  have hlow : (req.lba &&& 0xFFFFFFFF).toUInt32.toNat = req.lba.toNat % 2 ^ 32 := by
    rw [UInt64.toNat_toUInt32, UInt64.toNat_and]
    have hand := Nat.and_two_pow_sub_one_eq_mod req.lba.toNat 32
    change (req.lba.toNat &&& (2 ^ 32 - 1)) % 2 ^ 32 = _
    rw [hand, Nat.mod_mod]
  have hhigh : (req.lba >>> 32).toUInt32.toNat = req.lba.toNat / 2 ^ 32 := by
    rw [UInt64.toNat_toUInt32, UInt64.toNat_shiftRight]
    have hlt : req.lba.toNat < 2 ^ 64 := UInt64.toNat_lt _
    change (req.lba.toNat >>> 32) % 2 ^ 32 = _
    rw [Nat.shiftRight_eq_div_pow, Nat.mod_eq_of_lt (by omega)]
  change (req.lba &&& 0xFFFFFFFF).toUInt32.toNat + (req.lba >>> 32).toUInt32.toNat * 2 ^ 32 = _
  rw [hlow, hhigh, Nat.mul_comm, Nat.mod_add_div]

theorem blocks_command (hfits : req.Fits) (bouncePhys : UInt64) :
    ((command req r bouncePhys).cdw12 &&& 0xFFFF).toNat + 1 = req.count.toNat := by
  obtain ⟨hpos, hle⟩ := hfits
  have hcount : req.count = UInt32.ofNat req.count.toNat := (UInt32.ofNat_toNat).symm
  change ((req.count.toUInt16 - 1).toUInt32 &&& 0xFFFF).toNat + 1 = _
  rw [hcount]
  generalize req.count.toNat = n at hpos hle
  interval_cases n <;> decide

theorem toNat_count (hfits : req.Fits) : (req.count * 512).toNat = req.count.toNat * 512 := by
  rw [UInt32.toNat_mul]
  exact Nat.mod_eq_of_lt (by
    have := hfits.2
    change req.count.toNat * 512 < 2 ^ 32
    omega)

theorem not_tooLarge (hfits : req.Fits) : ¬ 4096 < req.count * 512 := by
  rw [UInt32.lt_iff_toNat_lt, toNat_count hfits]
  have := hfits.2
  change ¬ 4096 < req.count.toNat * 512
  omega

/-- **The command of a request** does what the request asks for. -/
theorem perform_command (hr : r < 32) (hfits : req.Fits) (bouncePhys : UInt64) (disk : Disk)
    (pages : UInt64 → Bytes) :
    perform (command req r bouncePhys) disk pages =
      if req.isWrite then (writeBlocks disk req.lba.toNat req.count.toNat (pages bouncePhys), pages)
      else (disk, Function.update pages bouncePhys
        (copyBytes (req.count.toNat * 512) (readBlocks disk req.lba.toNat) (pages bouncePhys))) := by
  unfold perform
  dsimp only
  rw [opcode_command hr, lba_command, blocks_command hfits]
  cases req.isWrite
  · rfl
  · rfl

end Command

/-! ### Bytes -/

theorem copyBytes_copyBytes (n : Nat) (source middle target : Bytes) :
    copyBytes n (copyBytes n source middle) target = copyBytes n source target := by
  funext i
  unfold copyBytes
  split
  · rfl
  · rfl

theorem copyBytes_of_lt {n i : Nat} (hi : i < n)
    (source target : Bytes) : copyBytes n source target i = source i :=
  if_pos hi

theorem writeBlocks_congr {blocks : Nat} {data data' : Bytes} (h : ∀ i < blocks * 512, data i = data' i)
    (disk : Disk) (lba : Nat) : writeBlocks disk lba blocks data = writeBlocks disk lba blocks data' := by
  funext b j
  unfold writeBlocks
  split
  case isTrue hb =>
    have hj := j.isLt
    exact h _ (by omega)
  case isFalse => rfl

end Keuos.Nvme

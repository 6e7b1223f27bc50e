import DupDistribute.Playback.Truth

/-!
# The pace of a replay

`scanAndSend` sends a record when `(atoi(fileTime) - atoi(starttime)) < speed * elapse`
(`playback.c:79-85`). `speed` is `unsigned`, so both sides are taken modulo 2^32: the test is
the one over the integers as long as the product is neither negative nor too large. After the
clock has stepped back the product is negative and counts as a large number.

`fileTime` is copied from an entry that has been freed (`playback.c:57`, `playback.c:84`), and the
`malloc` between the two may have given its memory to the record's content. So what follows is
about iterations in which the name still reads as it was listed (`Reads`).
-/

namespace DupDistribute.Playback

open DupDistribute.Base DupDistribute.Wire DupDistribute.Record

/-- The clock reading as the code keeps it, in `unsigned int`. -/
private theorem toNat_elapse (now play : Nat) :
    (((UInt32.ofNat now - UInt32.ofNat play).toNat : Nat) : Int) =
      ((now : Int) - play) % 4294967296 := by
  rw [UInt32.toNat_sub, UInt32.toNat_ofNat', UInt32.toNat_ofNat']
  omega

/-- The right side of the pacing test. -/
private theorem toNat_product (speed : UInt32) (now play : Nat) :
    (((speed * (UInt32.ofNat now - UInt32.ofNat play).toInt32.toUInt32).toNat : Nat) : Int) =
      (speed.toNat * ((now : Int) - play)) % 4294967296 := by
  have hsize : (((2 : Nat) ^ 32 : Nat) : Int) = 4294967296 := by decide
  rw [UInt32.toUInt32_toInt32, UInt32.toNat_mul, Int.natCast_emod, Int.natCast_mul,
    toNat_elapse, hsize, Int.mul_emod, Int.emod_emod_of_dvd _ (Int.dvd_refl _), ← Int.mul_emod]

/-- The left side, for a record that is not older than the start of the replay. -/
private theorem toNat_difference {start time : UInt32} (uuid : UInt32) (hle : start ≤ time)
    (ht : time.toNat < 2147483648) :
    (((atoi (strncpy (recordName time uuid) 10) - atoi (printD 0 start.toInt32)).toUInt32.toNat :
      Nat) : Int) = (time.toNat : Int) - start.toNat := by
  rw [UInt32.le_iff_toNat_le] at hle
  have hstart : start.toInt32.toInt = start.toNat := by rw [toInt_toInt32, if_pos (by omega)]
  have hread : atoi (strncpy (recordName time uuid) 10) = time.toInt32 := by
    rw [← Int32.toInt_inj, realTime_of_lt uuid ht, toInt_toInt32, if_pos ht]
  rw [hread, atoi_printD]
  have hsub : (time.toInt32 - start.toInt32).toUInt32 = time - start := rfl
  rw [hsub, UInt32.toNat_sub]
  omega

/-- What the pacing test amounts to: the product is taken modulo 2^32. -/
theorem gateOpen_iff {start time : UInt32} (uuid speed : UInt32) (play now : Nat)
    (hle : start ≤ time) (ht : time.toNat < 2147483648) :
    gateOpen (strncpy (recordName time uuid) 10) (printD 0 start.toInt32) speed
        (UInt32.ofNat play) (UInt32.ofNat now) = true ↔
      (time.toNat : Int) - start.toNat <
        (speed.toNat * ((now : Int) - play)) % 4294967296 := by
  rw [← toNat_product, ← toNat_difference uuid hle ht, Int.ofNat_lt, gateOpen,
    decide_eq_true_eq, UInt32.lt_iff_toNat_lt]

end DupDistribute.Playback

import DupDistribute.Base.Strtoul

/-!
# Addresses as text

`inet_ntoa` (`glibc-2.27/inet/inet_ntoa.c:33-42`), with which the server notes where a connection
comes from, and `inet_addr` (`glibc-2.27/resolv/inet_addr.c:86-197`), with which it finds where to
bind and to connect. The parser takes one to four numbers, in octal, decimal or hexadecimal; the
printer gives four decimal ones, and what it prints is read back.
-/

namespace DupDistribute.Wire

open DupDistribute.Base

/-- `struct in_addr`: its bytes in memory, which is network order. -/
structure InAddr where
  b0 : UInt8
  b1 : UInt8
  b2 : UInt8
  b3 : UInt8
  deriving DecidableEq

/-- The bytes stored so far and zeros behind them. -/
def InAddr.ofBytes (bytes : List UInt8) : InAddr :=
  ⟨bytes.getD 0 0, bytes.getD 1 0, bytes.getD 2 0, bytes.getD 3 0⟩

/-- `|` of two words. -/
def InAddr.or (x y : InAddr) : InAddr :=
  ⟨x.b0 ||| y.b0, x.b1 ||| y.b1, x.b2 ||| y.b2, x.b3 ||| y.b3⟩

/-- `htonl`, as bytes in memory. -/
def htonl (val : Nat) : InAddr :=
  ⟨UInt8.ofNat (val / 16777216), UInt8.ofNat (val / 65536), UInt8.ofNat (val / 256),
    UInt8.ofNat val⟩

/-- `INADDR_NONE`. -/
def INADDR_NONE : InAddr := ⟨255, 255, 255, 255⟩

/-- A byte through `%d`. -/
def printByte (b : UInt8) : CString := printD 0 (Int32.ofNat b.toNat)

/-- `inet_ntoa`. -/
def inetNtoa (ip : InAddr) : CString :=
  printByte ip.b0 ++ '.' :: (printByte ip.b1 ++ '.' :: (printByte ip.b2 ++ '.' :: printByte ip.b3))

/-- `max`, `inet_addr.c:106`, by the number of bytes stored. -/
def inetAtonMax (stored : Nat) : Nat :=
  match stored with
  | 0 => 0xffffffff
  | 1 => 0xffffff
  | 2 => 0xffff
  | _ => 0xff

/-- The end of `inet_aton`, `inet_addr.c:165-190`: white space may follow, and the last number
has to fit into the bytes that are left. -/
def inetAtonEnd (bytes : List UInt8) (val : Nat) (digit : Bool) (rest : CString) :
    Option InAddr :=
  if rest.head?.any (fun c ↦ !isSpace c) then none
  else if digit = false then none
  else if inetAtonMax bytes.length < val then none
  else some ((InAddr.ofBytes bytes).or (htonl val))

/-- The loop of `inet_aton`, `inet_addr.c:120-164`, with the dots that may still come. -/
def inetAtonLoop (bytes : List UInt8) (dots : Nat) (cp : CString) : Option InAddr :=
  if cp.head?.any Char.isDigit then
    let ul := strtoul cp 0
    if ul.value = ULONG_MAX ∧ ul.erange then none
    else if 0xffffffff < ul.value then none
    else
      match ul.endptr, dots with
      | '.' :: _, 0 => none
      | '.' :: next, dots + 1 =>
        if 0xff < ul.value then none
        else inetAtonLoop (bytes ++ [UInt8.ofNat ul.value]) dots next
      | rest, _ => inetAtonEnd bytes ul.value (ul.endptr.length ≠ cp.length) rest
  else none

/-- `inet_aton`. -/
def inetAton (cp : CString) : Option InAddr := inetAtonLoop [] 3 cp

/-- `inet_addr`. -/
def inetAddr (cp : CString) : InAddr := (inetAton cp).getD INADDR_NONE

/-! ### Round trip -/

theorem printByte_eq (b : UInt8) : printByte b = Nat.toDigits 10 b.toNat := by
  have hlt : b.toNat < 256 := b.toNat_lt
  have hx : (Int32.ofNat b.toNat).toInt = b.toNat := by
    rw [Int32.toInt_ofNat_of_lt (by omega)]
  rw [printByte, printD_of_nonneg (by omega), hx, Int.natAbs_natCast]

private theorem head_printByte (b : UInt8) (rest : CString) :
    (printByte b ++ rest).head?.any Char.isDigit = true := by
  obtain ⟨c, ds, heq⟩ := List.exists_cons_of_ne_nil (Nat.toDigits_ne_nil (b := 10) (n := b.toNat))
  have hc : c.isDigit = true :=
    Nat.isDigit_of_mem_toDigits (b := 10) (n := b.toNat) (by decide) (by decide) (by simp [heq])
  rw [printByte_eq, heq]
  simpa using hc

private theorem strtoul_printByte (b : UInt8) {rest : CString} (h : StopsDigits rest) :
    strtoul (printByte b ++ rest) 0 = ⟨b.toNat, false, rest⟩ := by
  have hlt : b.toNat < 256 := b.toNat_lt
  rw [printByte_eq]
  exact strtoul_toDigits (by rw [ULONG_MAX]; omega) h

/-- A byte and a dot are read. -/
private theorem inetAtonLoop_dot (bytes : List UInt8) (dots : Nat) (b : UInt8) (next : CString) :
    inetAtonLoop bytes (dots + 1) (printByte b ++ '.' :: next) =
      inetAtonLoop (bytes ++ [b]) dots next := by
  have hlt : b.toNat < 256 := b.toNat_lt
  have hstop : StopsDigits ('.' :: next) := by simp [StopsDigits, digitValue]
  rw [inetAtonLoop, head_printByte, strtoul_printByte b hstop]
  simp only [↓reduceIte, Bool.false_eq_true, and_false, show ¬0xffffffff < b.toNat by omega,
    show ¬0xff < b.toNat by omega, UInt8.ofNat_toNat]

/-- The last byte is read. -/
private theorem inetAtonLoop_last {bytes : List UInt8} (h3 : bytes.length = 3) (dots : Nat)
    (b : UInt8) :
    inetAtonLoop bytes dots (printByte b) = some ((InAddr.ofBytes bytes).or (htonl b.toNat)) := by
  have hlt : b.toNat < 256 := b.toNat_lt
  have hhead := head_printByte b []
  have hstop : StopsDigits [] := by simp [StopsDigits]
  have hread := strtoul_printByte b hstop
  rw [List.append_nil] at hhead hread
  have hdigit : 0 ≠ (printByte b).length := by
    rw [printByte_eq]
    exact Nat.ne_of_lt Nat.length_toDigits_pos
  rw [inetAtonLoop, hhead, hread]
  simp only [↓reduceIte, Bool.false_eq_true, and_false, show ¬0xffffffff < b.toNat by omega]
  simp only [inetAtonEnd, h3, inetAtonMax, List.head?_nil, Option.any_none, List.length_nil,
    hdigit, Bool.false_eq_true, ↓reduceIte, show ¬0xff < b.toNat by omega, decide_true, ne_eq,
    not_false_eq_true, Bool.true_eq_false]

/-- The bytes of a number that fits into one. -/
private theorem htonl_toNat (b : UInt8) : htonl b.toNat = ⟨0, 0, 0, b⟩ := by
  have hlt : b.toNat < 256 := b.toNat_lt
  rw [htonl, Nat.div_eq_of_lt (by omega), Nat.div_eq_of_lt (by omega), Nat.div_eq_of_lt hlt,
    UInt8.ofNat_toNat]
  rfl

/-- What `inet_ntoa` prints, `inet_addr` reads back. -/
theorem inetAddr_inetNtoa (ip : InAddr) : inetAddr (inetNtoa ip) = ip := by
  rw [inetAddr, inetAton, inetNtoa, inetAtonLoop_dot, inetAtonLoop_dot, inetAtonLoop_dot,
    inetAtonLoop_last rfl, Option.getD_some, htonl_toNat]
  simp [InAddr.or, InAddr.ofBytes]

example : inetAddr "192.168.1.20".toList = ⟨192, 168, 1, 20⟩ := by decide +kernel

example : inetAddr "127.1".toList = ⟨127, 0, 0, 1⟩ := by decide +kernel

end DupDistribute.Wire

import ZeroCopyProxy.Verified.Liberal
import Mathlib.Algebra.Order.Ring.Int
import Mathlib.Data.List.Basic

/-!
# The C library and kernel interface of the three programs

Byte arrays with the bounds-checked `memcpy` and `memset`, the `errno` values
and return codes the sources compare, and the system calls with what the
kernel answers.  A copy that leaves an array is undefined behaviour, so
`memcpy` and `memset` are partial; a `read` or `write` that moved more bytes
than its array holds is undefined behaviour as well and is caught at the call
(`sysRead`, `sysWrite`).
-/

namespace ZeroCopyProxy.Ports.Posix

open ZeroCopyProxy.Verified.Resumption
open ZeroCopyProxy.Verified.Liberal

/-! ## Byte arrays -/

abbrev Bytes : Type := List UInt8

/-- Byte `i`, zero outside the string. -/
def byteAt (bs : Bytes) (i : Nat) : UInt8 := bs.getD i 0

/-- A C array of `n` bytes. -/
structure Buf (n : Nat) where
  bytes : Bytes
  size : bytes.length = n
  deriving DecidableEq

attribute [simp] Buf.size

/-- The array `memset(b, '\0', n)` leaves. -/
def Buf.zeros (n : Nat) : Buf n := ⟨List.replicate n 0, List.length_replicate⟩

/-- `memcpy(&dst[dstOff], &src[srcOff], size)`, defined only inside both
arrays. -/
def Buf.memcpy {n : Nat} (dst : Buf n) (dstOff : Int) (src : Bytes)
    (srcOff size : Int) : Option (Buf n) :=
  if h : 0 ≤ size ∧ 0 ≤ dstOff ∧ dstOff + size ≤ n ∧ 0 ≤ srcOff ∧
      srcOff + size ≤ src.length then
    some
      { bytes := dst.bytes.take dstOff.toNat ++
          (src.drop srcOff.toNat).take size.toNat ++
          dst.bytes.drop (dstOff + size).toNat
        size := by
          simp only [List.length_append, List.length_take, List.length_drop,
            dst.size]
          omega }
  else none

/-- `memset(b, '\0', size)`, defined only inside the array. -/
def Buf.memset {n : Nat} (b : Buf n) (size : Int) : Option (Buf n) :=
  if h : 0 ≤ size ∧ size ≤ n then
    some
      { bytes := List.replicate size.toNat 0 ++ b.bytes.drop size.toNat
        size := by
          simp only [List.length_append, List.length_replicate,
            List.length_drop, b.size]
          omega }
  else none

/-- A copy inside both arrays happens, and this is what it leaves. -/
theorem Buf.memcpy_eq {n : Nat} (dst : Buf n) (src : Bytes) {d s k : Nat}
    (hd : d + k ≤ n) (hs : s + k ≤ src.length) :
    ∃ b, dst.memcpy d src s k = some b ∧
      b.bytes = dst.bytes.take d ++ (src.drop s).take k ++
        dst.bytes.drop (d + k) := by
  have h : (0 : Int) ≤ k ∧ (0 : Int) ≤ d ∧ (d : Int) + k ≤ n ∧ (0 : Int) ≤ s ∧
      (s : Int) + k ≤ src.length := by omega
  refine ⟨_, by rw [Buf.memcpy, dif_pos h], ?_⟩
  have hdk : ((d : Int) + k).toNat = d + k := by omega
  simp only [Int.toNat_natCast, hdk]

/-- A copy that happens stays inside both arrays. -/
theorem Buf.memcpy_bounds {n : Nat} {dst b : Buf n} {src : Bytes}
    {d s k : Int} (h : dst.memcpy d src s k = some b) :
    0 ≤ k ∧ 0 ≤ d ∧ d + k ≤ n ∧ 0 ≤ s ∧ s + k ≤ src.length := by
  unfold Buf.memcpy at h
  split at h
  · assumption
  · cases h

theorem Buf.memset_eq {n : Nat} (b : Buf n) {k : Nat} (hk : k ≤ n) :
    ∃ c, b.memset k = some c ∧
      c.bytes = List.replicate k 0 ++ b.bytes.drop k := by
  have h : (0 : Int) ≤ k ∧ (k : Int) ≤ n := by omega
  exact ⟨_, by rw [Buf.memset, dif_pos h], by simp⟩

/-- The number of bytes before the first NUL.  The sources only ask whether
it is zero, so what lies behind the array does not matter. -/
def strlen (bs : Bytes) : Nat := (bs.takeWhile (· ≠ 0)).length

theorem strlen_eq_zero_iff (b : UInt8) (bs : Bytes) :
    strlen (b :: bs) = 0 ↔ b = 0 := by
  by_cases hb : b = 0 <;> simp [strlen, hb]

/-! ## Return codes -/

/-- The values of `errno` the sources tell apart. -/
inductive Errno where
  | eagain
  | ewouldblock
  | eintr
  | other (code : Nat)
  deriving DecidableEq

/-! `enum ERROR` of `common_l.h` and `common.h`; two of its names share a
value, so codes stay integers. -/

def errnoEagain : Int := 1
def normal : Int := 0
def fdErr : Int := -1
def zeroByte : Int := -3
def negativeByte : Int := -4
def bufErr : Int := -5
def interrupt : Int := -8
def unknown : Int := -9

/-- The code for a failed `read` or receiving `splice`. -/
def recvErrorCode (e : Errno) : Int :=
  if e = .eagain ∨ e = .ewouldblock then errnoEagain
  else if e = .eintr then interrupt
  else negativeByte

/-- The code for a failed `write` or sending `splice`. -/
def sendErrorCode (e : Errno) : Int :=
  if e = .eagain ∨ e = .ewouldblock then errnoEagain else negativeByte

theorem recvErrorCode_ne_unknown (e : Errno) : recvErrorCode e ≠ unknown := by
  unfold recvErrorCode
  split
  · decide
  · split <;> decide

/-- A receiver goes on after `EAGAIN` and `EWOULDBLOCK` only. -/
theorem recvErrorCode_le_zeroByte (e : Errno) :
    recvErrorCode e ≤ zeroByte ↔ ¬ (e = .eagain ∨ e = .ewouldblock) := by
  unfold recvErrorCode
  split
  · next hblock => exact ⟨fun hle => absurd hle (by decide), fun hno => absurd hblock hno⟩
  · next hblock => split <;> exact ⟨fun _ => hblock, fun _ => by decide⟩

theorem sendErrorCode_ne_unknown (e : Errno) : sendErrorCode e ≠ unknown := by
  unfold sendErrorCode
  split <;> decide

/-! ## System calls -/

/-- The read and write end made by `pipe(2)`. -/
structure Pipe where
  rd : Int
  wr : Int
  deriving DecidableEq

/-- Which arrays a `read` or `write` works on: the header arrays of
`MSG_HEADER_LEN` bytes or the body arrays of `BUF_MAX_LEN` bytes. -/
inductive Area where
  | hdr
  | body
  deriving DecidableEq

/-- `MSG_HEADER_LEN` is 20 and `BUF_MAX_LEN` is 1024. -/
def Area.size : Area → Nat
  | .hdr => 20
  | .body => 1024

/-- The system calls, with the counts as the sources compute them. -/
inductive SysCall where
  | read (fd : Int) (area : Area) (count : Int)
  | write (fd : Int) (area : Area) (buf : Bytes) (count : Int)
  | spliceIn (fd : Int) (pipe : Pipe) (count : Int)
  | spliceOut (pipe : Pipe) (fd : Int) (count : Int)
  | close (fd : Int)
  | getsockopt (fd : Int)
  | epollWait
  deriving DecidableEq

/-- What a call returns: its value, `errno` after it, the bytes a `read`
stored or a `splice` put into a pipe (which the process does not see), and
the descriptors an `epoll_wait` reported. -/
structure Answer where
  ret : Int
  errno : Errno
  data : Bytes
  ready : List Int
  deriving DecidableEq

/-- The count a call hands to the kernel is not negative and covers no more
than the array it works on. -/
def SysCall.InBounds : SysCall → Prop
  | .read _ area count => 0 ≤ count ∧ count ≤ area.size
  | .write _ area _ count => 0 ≤ count ∧ count ≤ area.size
  | .spliceIn _ _ count => 0 ≤ count
  | .spliceOut _ _ count => 0 ≤ count
  | _ => True

/-- The bytes that came in with a successful `read` or `splice`. -/
def Answer.moved (r : Answer) : Bytes := r.data.take r.ret.toNat

/-- A transfer moves at most the requested count, and as many bytes as it
returns. -/
def Answer.Fits (r : Answer) : SysCall → Prop
  | .read _ _ count => r.ret ≤ count ∧ (0 ≤ r.ret → (r.data.length : Int) = r.ret)
  | .write _ _ _ count => r.ret ≤ count
  | .spliceIn _ _ count => r.ret ≤ count ∧ (0 ≤ r.ret → (r.data.length : Int) = r.ret)
  | .spliceOut _ _ count => r.ret ≤ count
  | _ => True

theorem Answer.moved_eq {r : Answer} (h : (r.data.length : Int) = r.ret) :
    r.moved = r.data := by
  apply List.take_of_length_le
  omega

/-- A call that moves nothing takes nothing in. -/
theorem Answer.moved_nil {r : Answer} (h : r.ret ≤ 0) : r.moved = [] := by
  rw [Answer.moved, Int.toNat_of_nonpos h, List.take_zero]

instance (r : Answer) (op : SysCall) : Decidable (r.Fits op) :=
  match op with
  | .read _ _ count | .spliceIn _ _ count =>
      inferInstanceAs (Decidable (r.ret ≤ count ∧ (0 ≤ r.ret → (r.data.length : Int) = r.ret)))
  | .write _ _ _ count | .spliceOut _ _ count => inferInstanceAs (Decidable (r.ret ≤ count))
  | .close _ | .getsockopt _ | .epollWait => .isTrue trivial

/-- The answer of a call that fails. -/
def Answer.fail (e : Errno) : Answer := ⟨-1, e, [], []⟩

/-- The answer of a call that sends `n` bytes. -/
def Answer.count (n : Int) : Answer := ⟨n, .other 0, [], []⟩

/-- The answer of a call that takes these bytes in. -/
def Answer.stored (data : Bytes) : Answer := ⟨data.length, .other 0, data, []⟩

section Calls

variable {S : Type}

/-- `read` into an array of this area. -/
def sysRead (fd : Int) (area : Area) (count : Int) :
    Prog S SysCall Answer Answer := do
  let r ← Prog.call (.read fd area count)
  if r.ret ≤ area.size then pure r else Prog.fault

/-- `write` from an array of this area. -/
def sysWrite (fd : Int) (area : Area) (buf : Bytes) (count : Int) :
    Prog S SysCall Answer Answer := do
  let r ← Prog.call (.write fd area buf count)
  if r.ret ≤ area.size then pure r else Prog.fault

variable {W : Type} {K : W → S → SysCall → Answer → W → Prop}
  {P : W → S → SysCall → Prop} {Q : W → S → Answer → Prop}

/-- A `read` that asks for no more than the array holds cannot leave it. -/
theorem wp_sysRead {fd count : Int} {area : Area} {s : S} {w : W}
    (hK : ∀ r w', K w s (.read fd area count) r w' → r.Fits (.read fd area count))
    (hcount : count ≤ area.size) (hP : P w s (.read fd area count))
    (hQ : ∀ r w', K w s (.read fd area count) r w' → Q w' s r) :
    wp K P Q ((sysRead fd area count : Prog S SysCall Answer Answer) s) w := by
  simp only [sysRead, wp_bind, wp_prog_call, wp_ite, wp_pure, wp_prog_fault]
  refine ⟨hP, fun r w' hk => ⟨fun _ => hQ r w' hk, fun hbig => hbig ?_⟩⟩
  exact Int.le_trans (hK r w' hk).1 hcount

/-- A `write` that moves no more than the array holds does not leave it. -/
theorem wp_sysWrite {fd count : Int} {area : Area} {buf : Bytes} {s : S} {w : W}
    (hret : ∀ r w', K w s (.write fd area buf count) r w' → r.ret ≤ area.size)
    (hP : P w s (.write fd area buf count))
    (hQ : ∀ r w', K w s (.write fd area buf count) r w' → Q w' s r) :
    wp K P Q ((sysWrite fd area buf count : Prog S SysCall Answer Answer) s) w := by
  simp only [sysWrite, wp_bind, wp_prog_call, wp_ite, wp_pure, wp_prog_fault]
  exact ⟨hP, fun r w' hk => ⟨fun _ => hQ r w' hk, fun hbig => hbig (hret r w' hk)⟩⟩

/-- What a `read` that stays in its array leaves to show. -/
theorem wlp_sysRead {fd count : Int} {area : Area} {s : S} {w : W}
    (hP : P w s (.read fd area count))
    (hQ : ∀ r w', K w s (.read fd area count) r w' → Q w' s r) :
    wlp K P Q ((sysRead fd area count : Prog S SysCall Answer Answer) s) w := by
  simp only [sysRead, wlp_bind, wlp_prog_call, wlp_ite, wlp_pure]
  exact ⟨hP, fun r w' hk => ⟨fun _ => hQ r w' hk, fun _ => True.intro⟩⟩

/-- A `write` keeps what the call keeps. -/
theorem keeps_sysWrite {I : W → S → Prop} {fd count : Int} {area : Area} {buf : Bytes}
    (hP : ∀ w s, I w s → P w s (.write fd area buf count))
    (hI : ∀ w s r w', I w s → K w s (.write fd area buf count) r w' → I w' s) :
    Keeps K P I (sysWrite fd area buf count : Prog S SysCall Answer Answer) := by
  apply (keeps_call hP hI).bind
  intro r w s h
  rw [wlp_ite]
  exact ⟨fun _ => h, fun _ => True.intro⟩

end Calls

end ZeroCopyProxy.Ports.Posix

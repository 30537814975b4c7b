import Mathlib.Data.Int.Basic
import Mathlib.Data.List.Basic

/-! # What the kernel answers

The bytes and numbers of the platform, and the values that system calls hand to the library:
`errno`, the results of `::read` and `::write` on a nonblocking socket, and sets of epoll
flags. -/

namespace Dagger

/-- `char`. -/
abbrev Byte := UInt8

/-- The characters of a `std::string` made from a literal. -/
def chars (str : String) : List Byte := str.toUTF8.data.toList

/-- The values of `errno` the library tells apart; on Linux `EWOULDBLOCK` is `EAGAIN`. -/
inductive Errno where
  | EINTR
  | EAGAIN
  | EPROTO
  | ECONNABORTED
  | other (code : ℕ)
deriving DecidableEq, Repr

/-- A result of `::read`: the bytes delivered (none at end of file), or `-1` and `errno`. -/
inductive ReadResult where
  | data (bs : List Byte)
  | error (e : Errno)
deriving DecidableEq, Repr

/-- A result of `::write`: the number of bytes accepted, or `-1` and `errno`. -/
inductive WriteResult where
  | accepted (n : ℕ)
  | error (e : Errno)
deriving DecidableEq, Repr

/-- The largest `size_t`. -/
abbrev SIZE_MAX : ℕ := 18446744073709551615

/-- `(size_t) n` for the `ssize_t n` that `::write` returned. -/
def WriteResult.size : WriteResult → ℕ
  | accepted n => n
  | error _ => SIZE_MAX

/-- What `::write` may return for `len` bytes of memory. -/
def WriteResult.Possible (len : ℕ) : WriteResult → Prop
  | accepted n => n ≤ len
  | error _ => len < SIZE_MAX

/-- A set of epoll flags. -/
structure EpollFlags where
  EPOLLIN : Bool := false
  EPOLLPRI : Bool := false
  EPOLLOUT : Bool := false
  EPOLLERR : Bool := false
  EPOLLHUP : Bool := false
  EPOLLRDNORM : Bool := false
  EPOLLWRNORM : Bool := false
deriving DecidableEq, Repr

/-- The reports epoll may make on a descriptor registered with `interest`: only flags asked
for, but `EPOLLERR` and `EPOLLHUP` always. -/
def EpollFlags.Reportable (interest revents : EpollFlags) : Prop :=
  (revents.EPOLLIN → interest.EPOLLIN) ∧ (revents.EPOLLPRI → interest.EPOLLPRI) ∧
    (revents.EPOLLOUT → interest.EPOLLOUT) ∧ (revents.EPOLLRDNORM → interest.EPOLLRDNORM) ∧
      (revents.EPOLLWRNORM → interest.EPOLLWRNORM)

instance (i r : EpollFlags) : Decidable (i.Reportable r) :=
  inferInstanceAs (Decidable (_ ∧ _))

theorem EpollFlags.reportable_read {interest : EpollFlags} (h : interest.EPOLLIN = true) :
    interest.Reportable { EPOLLIN := true } :=
  ⟨fun _ => h, nofun, nofun, nofun, nofun⟩

theorem EpollFlags.reportable_write {interest : EpollFlags} (h : interest.EPOLLOUT = true) :
    interest.Reportable { EPOLLOUT := true } :=
  ⟨nofun, nofun, fun _ => h, nofun, nofun⟩

end Dagger

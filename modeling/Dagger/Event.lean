import Dagger.Kernel

/-! # `Event`

An entry of an epoll instance (`src/Event.h`): the interest mask, the flags of the last
report and four callback slots.  `κ` is the type of the callbacks that can be stored.
Every setter ends in `epoller_->updateEvent(this)`, so `events` is also the mask the kernel
has for the descriptor. -/

namespace Dagger

structure Event (κ : Type) where
  events : EpollFlags := {}
  revents : EpollFlags := {}
  readCallback : Option κ := none
  writeCallback : Option κ := none
  errorCallback : Option κ := none
  closeCallback : Option κ := none
deriving DecidableEq

namespace Event

variable {κ : Type}

def isWritable (e : Event κ) : Bool := e.events.EPOLLOUT

/-- Not in the source: reads are asked for. -/
def isReadable (e : Event κ) : Bool := e.events.EPOLLIN

def setRevents (e : Event κ) (revents : EpollFlags) : Event κ := { e with revents }

def setReadable (e : Event κ) (on : Bool) : Event κ :=
  { e with events := { e.events with EPOLLIN := on, EPOLLPRI := on } }

def setWritable (e : Event κ) (on : Bool) : Event κ :=
  { e with events := { e.events with EPOLLOUT := on } }

def setReadCallback (e : Event κ) (callback : κ) : Event κ :=
  { e with readCallback := some callback }

def setWriteCallback (e : Event κ) (callback : κ) : Event κ :=
  { e with writeCallback := some callback }

/-- The callback `handle` runs: at most one, the first in the order error, read, write, close
that was reported and is set. -/
def handle (e : Event κ) : Option κ :=
  if e.revents.EPOLLERR && e.errorCallback.isSome then e.errorCallback
  else if (e.revents.EPOLLIN || e.revents.EPOLLPRI || e.revents.EPOLLRDNORM) &&
      e.readCallback.isSome then e.readCallback
  else if (e.revents.EPOLLOUT || e.revents.EPOLLWRNORM) && e.writeCallback.isSome then
    e.writeCallback
  else if e.revents.EPOLLHUP && e.closeCallback.isSome then e.closeCallback
  else none

/-! ### Dispatch -/

/-- The events the library sets up ask for reads, priority data and writes only, and leave the
error and close callbacks alone. -/
structure Plain (e : Event κ) : Prop where
  errorCallback : e.errorCallback = none
  closeCallback : e.closeCallback = none
  rdnorm : e.events.EPOLLRDNORM = false
  wrnorm : e.events.EPOLLWRNORM = false
  pri : e.events.EPOLLPRI = e.events.EPOLLIN

variable {e : Event κ} {on : Bool} {callback : κ} {flags : EpollFlags}

theorem Plain.setRevents (h : e.Plain) : (e.setRevents flags).Plain :=
  ⟨h.errorCallback, h.closeCallback, h.rdnorm, h.wrnorm, h.pri⟩

theorem Plain.setReadable (h : e.Plain) : (e.setReadable on).Plain :=
  ⟨h.errorCallback, h.closeCallback, h.rdnorm, h.wrnorm, rfl⟩

theorem Plain.setWritable (h : e.Plain) : (e.setWritable on).Plain :=
  ⟨h.errorCallback, h.closeCallback, h.rdnorm, h.wrnorm, h.pri⟩

theorem Plain.setReadCallback (h : e.Plain) : (e.setReadCallback callback).Plain :=
  ⟨h.errorCallback, h.closeCallback, h.rdnorm, h.wrnorm, h.pri⟩

theorem Plain.setWriteCallback (h : e.Plain) : (e.setWriteCallback callback).Plain :=
  ⟨h.errorCallback, h.closeCallback, h.rdnorm, h.wrnorm, h.pri⟩

/-- A callback that runs sits in the read or the write slot. -/
theorem handle_slot (h : e.Plain) (hh : (e.setRevents flags).handle = some callback) :
    e.readCallback = some callback ∨ e.writeCallback = some callback := by
  unfold handle at hh
  simp only [Event.setRevents, h.errorCallback, h.closeCallback, Option.isSome_none, Bool.and_false,
    Bool.false_eq_true, if_false] at hh
  split_ifs at hh
  · exact Or.inl hh
  · exact Or.inr hh

/-- A callback that runs was asked for, in the slot it sits in. -/
theorem handle_cases (h : e.Plain) (hr : e.events.Reportable flags)
    (hh : (e.setRevents flags).handle = some callback) :
    (e.isReadable = true ∧ e.readCallback = some callback) ∨
      (e.isWritable = true ∧ e.writeCallback = some callback) := by
  obtain ⟨hin, hpri, hout, hrd, hwr⟩ := hr
  rw [h.rdnorm] at hrd
  rw [h.wrnorm] at hwr
  rw [h.pri] at hpri
  unfold handle at hh
  simp only [Event.setRevents, h.errorCallback, h.closeCallback, Option.isSome_none, Bool.and_false,
    Bool.false_eq_true, if_false] at hh
  split_ifs at hh with h1 h2
  · simp only [Bool.and_eq_true, Bool.or_eq_true] at h1
    refine Or.inl ⟨?_, hh⟩
    rcases h1.1 with (hf | hf) | hf
    · exact hin hf
    · exact hpri hf
    · exact absurd (hrd hf) Bool.false_ne_true
  · simp only [Bool.and_eq_true, Bool.or_eq_true] at h2
    refine Or.inr ⟨?_, hh⟩
    rcases h2.1 with hf | hf
    · exact hout hf
    · exact absurd (hwr hf) Bool.false_ne_true

end Event

end Dagger

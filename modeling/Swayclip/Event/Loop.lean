import Mathlib.Data.List.Basic
import Mathlib.Data.Nat.Notation
import Mathlib.Logic.Function.Basic
import Swayclip.Library.Runs

/-! # The event loop over epoll

`eventloop_run` as a machine whose steps are the calls that callbacks make and the points
where a batch is fetched, a callback is entered or left, and an iteration ends. The kernel's
part is the set of open descriptors and the interest set, in which an entry disappears when
its descriptor is closed. What is done to each source is recorded.
-/

namespace Swayclip

inductive EventPriority where
  | high
  | normal
deriving DecidableEq

/-- `struct eventsource`; callback and user data are left to the runs. -/
structure EventSource where
  fd : ℕ
  events : ℕ
  priority : EventPriority

/-- What is done to a source, given by its address. `removed` is the answer of
`eventloop_del`, or of the callback, that it is gone. -/
inductive Touch where
  | dispatched (source : ℕ)
  | removed (source : ℕ)
  | unlinked (source : ℕ)
  | queued (source : ℕ)
  | destroyed (source : ℕ)
deriving DecidableEq

/-- Where `eventloop_run` stands. While a batch is dispatched: the events in the buckets, and
the source whose callback is running. -/
inductive Phase where
  | idle
  | prepare
  | batch (waiting : List (ℕ × ℕ)) (current : Option ℕ)
deriving DecidableEq

/-- `struct eventloop` with the memory of its sources and the kernel's part. Addresses are
handed out in order, and freed memory keeps its content. -/
structure EventLoop where
  stop : Bool
  memory : ℕ → EventSource
  used : ℕ
  sources : List ℕ
  deletedSources : List ℕ
  epoll : ℕ → Option (ℕ × ℕ)
  isOpen : ℕ → Bool
  phase : Phase
  trace : List Touch

def maxEvents : ℕ := 4

/-- What `epoll_wait` reports: descriptors with their events, none of them twice. -/
structure Ready where
  fds : List (ℕ × ℕ)
  nodup : (fds.map Prod.fst).Nodup

/-- A call that a callback or `main` makes. The kernel chooses the number of a descriptor
that is opened. -/
inductive LoopCall where
  | add (fd : ℕ) (priority : EventPriority) (events : ℕ)
  | del (fd : ℕ)
  | mod (fd : ℕ) (events : ℕ)
  | stop
  | open (fd : ℕ)
  | close (fd : ℕ)

inductive LoopInput where
  | call (c : LoopCall)
  | run
  | wait (ready : Ready)
  | waitError
  | dispatch
  | ret (remove : Bool)
  | sweep

namespace EventLoop

def init : EventLoop where
  stop := true
  memory := fun _ => ⟨0, 0, .normal⟩
  used := 0
  sources := []
  deletedSources := []
  epoll := fun _ => none
  isOpen := fun _ => false
  phase := .idle
  trace := []

def note (touches : List Touch) (s : EventLoop) : EventLoop :=
  { s with trace := s.trace ++ touches }

/-- `epoll_ctl` with `EPOLL_CTL_DEL`; without an entry it fails and has no effect. -/
def epollDel (fd : ℕ) (s : EventLoop) : EventLoop :=
  { s with epoll := Function.update s.epoll fd none }

/-- `xlist_unlink_eventsource`, from whichever list the source is on. -/
def unlink (source : ℕ) (s : EventLoop) : EventLoop :=
  { s with
    sources := s.sources.filter (· ≠ source)
    deletedSources := s.deletedSources.filter (· ≠ source) }

/-- The source goes from its list to the front of `deleted_sources`. -/
def defer (source : ℕ) (s : EventLoop) : EventLoop :=
  let s := s.unlink source
  { s with deletedSources := source :: s.deletedSources }.note [.unlinked source, .queued source]

def eventsourceDel (source : ℕ) (s : EventLoop) : EventLoop :=
  ((s.epollDel (s.memory source).fd).unlink source).note [.destroyed source]

def eventloopFind (list : List ℕ) (fd : ℕ) (s : EventLoop) : Option ℕ :=
  list.find? (fun source => (s.memory source).fd = fd)

/-- `eventloop_add`; adding fails for a descriptor that is not open or has an entry. -/
def eventloopAdd (fd : ℕ) (priority : EventPriority) (events : ℕ) (s : EventLoop) :
    Bool × EventLoop :=
  if s.isOpen fd && (s.epoll fd).isNone then
    (true, { s with
      memory := Function.update s.memory s.used ⟨fd, events, priority⟩
      used := s.used + 1
      sources := s.used :: s.sources
      epoll := Function.update s.epoll fd (some (s.used, events)) })
  else (false, s)

/-- The source that `eventloop_del` finds. -/
def delTarget (fd : ℕ) (s : EventLoop) : Option ℕ :=
  if s.stop then (s.eventloopFind s.sources fd).or (s.eventloopFind s.deletedSources fd)
  else s.eventloopFind s.sources fd

/-- `eventloop_del`: the source is destroyed at once when the loop is to stop. -/
def eventloopDel (fd : ℕ) (s : EventLoop) : Bool × EventLoop :=
  match s.delTarget fd with
  | none => (false, s)
  | some source =>
    if s.stop then (true, (s.eventsourceDel source).note [.removed source])
    else (true, (s.defer source).note [.removed source])

def eventloopMod (fd : ℕ) (events : ℕ) (s : EventLoop) : Bool × EventLoop :=
  match s.eventloopFind s.sources fd with
  | none => (false, s)
  | some source =>
    if (s.memory source).events = events then (true, s)
    else if (s.epoll fd).isNone then (false, s)
    else (true, { s with
      memory := Function.update s.memory source { s.memory source with events := events }
      epoll := Function.update s.epoll fd (some (source, events)) })

def eventloopStop (s : EventLoop) : EventLoop := { s with stop := true }

/-- A descriptor in use is not handed out again. -/
def openFd (fd : ℕ) (s : EventLoop) : EventLoop :=
  if s.isOpen fd then s else { s with isOpen := Function.update s.isOpen fd true }

def closeFd (fd : ℕ) (s : EventLoop) : EventLoop :=
  { s.epollDel fd with isOpen := Function.update s.isOpen fd false }

def call (s : EventLoop) : LoopCall → EventLoop
  | .add fd priority events => (s.eventloopAdd fd priority events).2
  | .del fd => (s.eventloopDel fd).2
  | .mod fd events => (s.eventloopMod fd events).2
  | .stop => s.eventloopStop
  | .open fd => s.openFd fd
  | .close fd => s.closeFd fd

/-- The events that `epoll_wait` writes to `evs`: each carries the data of its entry. -/
def reported (ready : Ready) (s : EventLoop) : List (ℕ × ℕ) :=
  (ready.fds.take maxEvents).filterMap (fun e => (s.epoll e.1).map (fun entry => (entry.1, e.2)))

/-- The two buckets, high priority first. -/
def buckets (evs : List (ℕ × ℕ)) (s : EventLoop) : List (ℕ × ℕ) :=
  evs.filter (fun e => (s.memory e.1).priority = .high) ++
    evs.filter (fun e => (s.memory e.1).priority ≠ .high)

/-- Entering the callback of the next event. -/
def dispatch (s : EventLoop) : EventLoop :=
  match s.phase with
  | .batch (e :: waiting) none =>
    { s with phase := .batch waiting (some e.1) }.note [.dispatched e.1]
  | _ => s

def ret (remove : Bool) (s : EventLoop) : EventLoop :=
  match s.phase with
  | .batch waiting (some source) =>
    let s := { s with phase := .batch waiting none }
    if remove then (s.note [.removed source]).defer source else s
  | _ => s

def sweep (s : EventLoop) : EventLoop :=
  match s.phase with
  | .batch [] none =>
    let s := s.deletedSources.foldl (fun s source => s.eventsourceDel source) s
    { s with phase := if s.stop then .idle else .prepare }
  | _ => s

def step (s : EventLoop) : LoopInput → EventLoop
  | .call c => s.call c
  | .run =>
    match s.phase with
    | .idle => { s with stop := false, phase := .prepare }
    | _ => s
  | .wait ready =>
    match s.phase with
    | .prepare => { s with phase := .batch (s.buckets (s.reported ready)) none }
    | _ => s
  | .waitError =>
    match s.phase with
    | .prepare => { s with phase := .idle }
    | _ => s
  | .dispatch => s.dispatch
  | .ret remove => s.ret remove
  | .sweep => s.sweep

def waiting (s : EventLoop) : List (ℕ × ℕ) :=
  match s.phase with
  | .batch waiting _ => waiting
  | _ => []

def current (s : EventLoop) : Option ℕ :=
  match s.phase with
  | .batch _ current => current
  | _ => none

def twoSources (priority : EventPriority) : List LoopInput :=
  [.call (.open 5), .call (.add 5 priority 1), .call (.open 7), .call (.add 7 .normal 1), .run]

def bothReady : Ready := ⟨[(7, 1), (5, 1)], by decide⟩

end EventLoop

end Swayclip

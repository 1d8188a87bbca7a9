import Mathlib.Algebra.Group.Nat.Defs
import Mathlib.Data.List.Perm.Basic

/-!
# Reactor dispatch

The reactor with its handlers and the descriptors that they have registered, and what
`handleFds` does with polled events.  A handler is known by its index in its `SyncImpl`; each
registration remembers which handler made it and with what tag.

* A tag is 64 bits wide and `Fd` is an `int`, so each cast to it keeps 32 bits, with their sign.
* `Reactor.dispatch_iff` — over all operations on a reactor and all polled events: the handlers
  are called as they should be exactly when there is one handler and the tags have survived
  their casts; and when a tag decodes to the handler index and the value it was made from.
-/

set_option autoImplicit false

namespace Pistache.Aio

abbrev Fd := BitVec 32

abbrev TagValue := BitVec 64

inductive NotifyOn where
  | read
  | write
  | hangup
  | shutdown
  deriving DecidableEq, Repr

/-- What the reactor throws. -/
inductive Error where
  | runtime (what : String)
  | outOfRange
  | errno (what : String)
  deriving DecidableEq, Repr

/-- `Polling::Event`. -/
structure Event where
  flags : List NotifyOn
  tag : TagValue
  deriving DecidableEq, Repr

/-- A descriptor in the epoll set, with the tag that the kernel gives back.  `owner` is who
registered it, a worker and a handler of this worker, and `value` the tag which that one gave. -/
structure Registration where
  fd : Fd
  interest : List NotifyOn
  tag : TagValue
  owner : Nat × Nat
  value : TagValue
  deriving DecidableEq, Repr

/-! ## Tags -/

/-- A 64-bit number cast to `Fd` and back. -/
def castFd (value : BitVec 64) : BitVec 64 := (value.setWidth 32).signExtend 64

/-- `Polling::Tag(fd)`. -/
def tagOfFd (fd : Fd) : TagValue := fd.signExtend 64

def handlerBits : Nat := 8

/-- `sizeof(uint64_t) - HandlerBits`; `sizeof` counts bytes. -/
def handlerShift : Nat := 8 - handlerBits

def dataMask : BitVec 64 := BitVec.allOnes 64 >>> handlerBits

def maxHandlers : Nat := 2 ^ handlerBits - 1

def encodeTag (index : BitVec 64) (value : TagValue) : TagValue :=
  castFd ((index <<< handlerShift) ||| castFd value)

def decodeTag (tag : TagValue) : BitVec 64 × TagValue :=
  (tag >>> handlerShift, castFd (tag &&& dataMask))

/-! ## One thread -/

/-- A `SyncImpl`: how many handlers it has, and its epoll set. -/
structure SyncImpl where
  handlers : Nat := 0
  poller : List Registration := []
  deriving DecidableEq, Repr

namespace SyncImpl

variable (s : SyncImpl)

/-- `epoll_ctl` with `EPOLL_CTL_ADD`. -/
def addFd (r : Registration) : Except Error SyncImpl :=
  if s.poller.any (·.fd = r.fd) then .error (.errno "EEXIST")
  else .ok { s with poller := s.poller ++ [r] }

/-- `PollableQueue::bind`: the tag of an event descriptor is the descriptor. -/
def bind (owner : Nat × Nat) (eventFd : Fd) : SyncImpl :=
  match s.addFd ⟨eventFd, [.read], tagOfFd eventFd, owner, tagOfFd eventFd⟩ with
  | .ok s' => s'
  | .error _ => s

/-- `addHandler`: the handler binds its queues to the poller, then it gets its key. -/
def addHandler (worker : Nat) (queues : List Fd) : SyncImpl × Except Error (BitVec 64) :=
  let s := queues.foldl (fun s fd => s.bind (worker, s.handlers) fd) s
  if s.handlers = maxHandlers then (s, .error (.runtime "Maximum handlers reached"))
  else ({ s with handlers := s.handlers + 1 }, .ok (BitVec.ofNat 64 s.handlers))

def registerFd (owner : Nat × Nat) (key : BitVec 64) (fd : Fd) (interest : List NotifyOn)
    (tag : TagValue) : Except Error SyncImpl :=
  s.addFd ⟨fd, interest, encodeTag key tag, owner, tag⟩

/-- `epoll_ctl` with `EPOLL_CTL_MOD`. -/
def modifyFd (owner : Nat × Nat) (key : BitVec 64) (fd : Fd) (interest : List NotifyOn)
    (tag : TagValue) : Except Error SyncImpl :=
  if s.poller.any (·.fd = fd) then
    .ok { s with poller := s.poller.map fun r =>
      if r.fd = fd then ⟨fd, interest, encodeTag key tag, owner, tag⟩ else r }
  else .error (.errno "ENOENT")

def removeFd (fd : Fd) : Except Error SyncImpl :=
  if s.poller.any (·.fd = fd) then .ok { s with poller := s.poller.filter (·.fd ≠ fd) }
  else .error (.errno "ENOENT")

/-- `HandlerList::at`. -/
def handlerAt (index : BitVec 64) : Except Error Nat :=
  if index.toNat ≥ s.handlers then
    .error (.runtime "Attempting to retrieve invalid handler")
  else .ok index.toNat

/-- The events of each handler, as a map. -/
abbrev FdHandlers := List (Nat × List Event)

/-- `fdHandlers.at(handler_).push_back(event)`. -/
def FdHandlers.pushAt (handler : Nat) (event : Event) : FdHandlers → Except Error FdHandlers
  | [] => .error .outOfRange
  | (h, events) :: rest =>
    if h = handler then .ok ((h, events ++ [event]) :: rest)
    else (pushAt handler event rest).map ((h, events) :: ·)

/-- The loop over the events of `handleFds`. -/
def collect : FdHandlers → List Event → Except Error FdHandlers
  | fdHandlers, [] => .ok fdHandlers
  | fdHandlers, event :: events =>
    match s.handlerAt (decodeTag event.tag).1 with
    | .error e => .error e
    | .ok handler =>
      match fdHandlers.pushAt handler event with
      | .error e => .error e
      | .ok fdHandlers => collect fdHandlers events

/-- `handleFds`: the calls of `onReady`, each with its handler and its `FdSet`. -/
def handleFds (events : List Event) : Except Error FdHandlers :=
  if s.handlers = 1 then .ok [(0, events)]
  else s.collect [] events

/-- The switch of `runOnce` on the number of descriptors that are ready. -/
def dispatch (events : List Event) : Except Error FdHandlers :=
  if events.length = 0 then .ok [] else s.handleFds events

end SyncImpl

/-! ## Several threads -/

/-- The implementation of a reactor: in the thread that calls it, or in threads of its own. -/
inductive Reactor where
  | sync (impl : SyncImpl)
  | async (workers : List SyncImpl)
  deriving DecidableEq, Repr

namespace Reactor

def encodeKey (originalKey : BitVec 64) (value : BitVec 32) : BitVec 64 :=
  originalKey <<< 32 ||| value.setWidth 64

def decodeKey (encodedKey : BitVec 64) : BitVec 32 × BitVec 32 :=
  ((encodedKey >>> 32).setWidth 32, (encodedKey &&& 0xFFFFFFFF).setWidth 32)

/-- `AsyncImpl::dispatchCall`. -/
def dispatchCall (workers : List SyncImpl) (key : BitVec 64)
    (func : SyncImpl → BitVec 64 → Except Error SyncImpl) : Except Error (List SyncImpl) :=
  let decoded := decodeKey key
  match workers[decoded.2.toNat]? with
  | none => .error .outOfRange
  | some worker =>
    (func worker (decoded.1.setWidth 64)).map fun worker => workers.set decoded.2.toNat worker

/-- The loop of `AsyncImpl::addHandler` over the workers. -/
def addToWorkers (queues : List Fd) : Nat → List SyncImpl → List SyncImpl
  | _, [] => []
  | i, worker :: workers =>
    match worker.addHandler i queues with
    | (worker, .ok _) => worker :: addToWorkers queues (i + 1) workers
    | (worker, .error _) => worker :: workers

/-- The key of a handler: its index, and with it the number of its worker. -/
def keyOf (reactor : Reactor) (worker handler : Nat) : BitVec 64 :=
  match reactor with
  | sync _ => BitVec.ofNat 64 handler
  | async _ => encodeKey (BitVec.ofNat 64 handler) (BitVec.ofNat 32 worker)

/-- A call of a member of the implementation that may throw and leave it as it was. -/
def call (reactor : Reactor) (key : BitVec 64)
    (func : SyncImpl → BitVec 64 → Except Error SyncImpl) : Reactor :=
  match reactor with
  | sync impl =>
    match func impl key with
    | .ok impl => sync impl
    | .error _ => sync impl
  | async workers =>
    match dispatchCall workers key func with
    | .ok workers => async workers
    | .error _ => async workers

/-- The `SyncImpl` of a worker; that of a synchronous reactor is its only one. -/
def worker : Reactor → Nat → Option SyncImpl
  | sync impl, 0 => some impl
  | sync _, _ + 1 => none
  | async workers, i => workers[i]?

/-- An operation on a reactor: of the program, or of a handler of one of its workers. -/
inductive Op where
  | addHandler (queues : List Fd)
  | registerFd (worker handler : Nat) (fd : Fd) (interest : List NotifyOn) (tag : TagValue)
  | modifyFd (worker handler : Nat) (fd : Fd) (interest : List NotifyOn) (tag : TagValue)
  | removeFd (worker handler : Nat) (fd : Fd)

/-- A handler that the worker has. -/
def has (reactor : Reactor) (worker handler : Nat) : Bool :=
  match reactor.worker worker with
  | some impl => handler < impl.handlers
  | none => false

def step (reactor : Reactor) : Op → Reactor
  | .addHandler queues =>
    match reactor with
    | sync impl => sync (impl.addHandler 0 queues).1
    | async workers => async (addToWorkers queues 0 workers)
  | .registerFd worker handler fd interest tag =>
    if reactor.has worker handler then
      reactor.call (reactor.keyOf worker handler) fun impl key =>
        impl.registerFd (worker, handler) key fd interest tag
    else reactor
  | .modifyFd worker handler fd interest tag =>
    if reactor.has worker handler then
      reactor.call (reactor.keyOf worker handler) fun impl key =>
        impl.modifyFd (worker, handler) key fd interest tag
    else reactor
  | .removeFd worker handler fd =>
    if reactor.has worker handler then
      reactor.call (reactor.keyOf worker handler) fun impl _ => impl.removeFd fd
    else reactor

def run : Reactor → List Op → Reactor := List.foldl step

/-- `SyncContext` and `AsyncContext`. -/
def init : Option Nat → Except Error Reactor
  | none => .ok (sync {})
  | some threads =>
    if threads > maxHandlers then .error (.runtime "Too many worker threads requested")
    else .ok (async (List.replicate threads {}))

end Reactor

/-! ## What is due -/

/-- What the kernel reports for a registration. -/
def eventOf (x : Registration × List NotifyOn) : Event := ⟨x.2, x.1.tag⟩

/-- The calls that polled events should lead to: each handler of the worker that has events, with
these and with the tags that it has registered. -/
def SyncImpl.due (s : SyncImpl) (worker : Nat) (polled : List (Registration × List NotifyOn)) :
    List (Nat × List Event) :=
  (List.range s.handlers).filterMap fun k =>
    match polled.filter (·.1.owner = (worker, k)) with
    | [] => none
    | own => some (k, own.map fun x => ⟨x.2, x.1.value⟩)

/-- Nothing is thrown, and the calls are those that are due, in some order. -/
def SyncImpl.Dispatches (s : SyncImpl) (worker : Nat)
    (polled : List (Registration × List NotifyOn)) : Prop :=
  ∃ calls, s.dispatch (polled.map eventOf) = .ok calls ∧ calls.Perm (s.due worker polled)

/-! ## Casts -/

theorem setWidth_signExtend (x : BitVec 32) : (x.signExtend 64).setWidth 32 = x := by
  ext i hi
  rw [BitVec.getElem_setWidth, BitVec.getLsbD_signExtend]
  simp [hi]
  omega

@[simp] theorem castFd_tagOfFd (fd : Fd) : castFd (tagOfFd fd) = tagOfFd fd := by
  rw [castFd, tagOfFd, setWidth_signExtend]

@[simp] theorem castFd_castFd (x : BitVec 64) : castFd (castFd x) = castFd x :=
  castFd_tagOfFd _

theorem castFd_or (x y : BitVec 64) : castFd (x ||| castFd y) = castFd (x ||| y) := by
  rw [castFd, castFd, castFd, BitVec.setWidth_or, BitVec.setWidth_or, setWidth_signExtend]

/-- The mask keeps the bits that an `Fd` has. -/
theorem castFd_dataMask (x : BitVec 64) : castFd (x &&& dataMask) = castFd x := by
  rw [castFd, castFd]
  congr 1
  ext i hi
  rw [BitVec.getElem_setWidth, BitVec.getElem_setWidth, BitVec.getLsbD_and, dataMask, handlerBits,
    BitVec.getLsbD_ushiftRight, BitVec.getLsbD_allOnes]
  simp
  intro
  omega

theorem encodeTag_eq (index : BitVec 64) (value : TagValue) :
    encodeTag index value = castFd (index ||| value) := by
  rw [encodeTag, show handlerShift = 0 from rfl, BitVec.shiftLeft_zero, castFd_or]

theorem decodeTag_eq (tag : TagValue) : decodeTag tag = (tag, castFd tag) := by
  rw [decodeTag, show handlerShift = 0 from rfl, BitVec.ushiftRight_zero, castFd_dataMask]

/-- **A tag decodes to what it was made from** only when the index is the value, which fits an
`Fd`: the shift moves nothing. -/
theorem decodeTag_encodeTag (index : BitVec 64) (value : TagValue) :
    decodeTag (encodeTag index value) = (index, value) ↔
      index = value ∧ castFd value = value := by
  rw [decodeTag_eq, encodeTag_eq, castFd_castFd, Prod.mk.injEq]
  constructor
  · rintro ⟨hindex, hvalue⟩
    refine ⟨hindex.symm.trans hvalue, ?_⟩
    rw [← hvalue, castFd_castFd]
  · rintro ⟨rfl, hvalue⟩
    rw [BitVec.or_self]
    exact ⟨hvalue, hvalue⟩

/-! ## The registrations of a worker -/

/-- Each registration was made by a handler of the worker with an index below `n`, and its tag is
the encoded one or, for a queue, the descriptor itself.  Only a handler that was refused because
the list is full can have left queues behind. -/
def SyncImpl.Owned (s : SyncImpl) (worker n : Nat) : Prop :=
  ∀ r ∈ s.poller, r.owner.1 = worker ∧ (r.owner.2 < n ∨ s.handlers = maxHandlers) ∧
    (r.tag = encodeTag (BitVec.ofNat 64 r.owner.2) r.value ∨
      (r.tag = r.value ∧ castFd r.value = r.value))

namespace SyncImpl

variable {s s' : SyncImpl} {worker n : Nat}

theorem Owned.addFd (h : s.Owned worker n) {r : Registration} (hs : s.addFd r = .ok s')
    (hr : r.owner.1 = worker ∧ r.owner.2 < n ∧
      (r.tag = encodeTag (BitVec.ofNat 64 r.owner.2) r.value ∨
        (r.tag = r.value ∧ castFd r.value = r.value))) :
    s'.handlers = s.handlers ∧ s'.Owned worker n := by
  unfold SyncImpl.addFd at hs
  split at hs
  · cases hs
  · cases hs
    refine ⟨rfl, fun r' hr' => ?_⟩
    rcases List.mem_append.mp hr' with hr' | hr'
    · exact h r' hr'
    · cases List.mem_singleton.mp hr'
      exact ⟨hr.1, .inl hr.2.1, hr.2.2⟩

theorem Owned.bind (h : s.Owned worker n) {k : Nat} (hk : k < n) (eventFd : Fd) :
    (s.bind (worker, k) eventFd).handlers = s.handlers ∧
      (s.bind (worker, k) eventFd).Owned worker n := by
  unfold SyncImpl.bind
  split
  · rename_i s' hs
    exact h.addFd hs ⟨rfl, hk, .inr ⟨rfl, castFd_tagOfFd eventFd⟩⟩
  · exact ⟨rfl, h⟩

theorem Owned.bindAll (queues : List Fd) :
    ∀ {s : SyncImpl}, s.Owned worker (s.handlers + 1) →
      (queues.foldl (fun s fd => s.bind (worker, s.handlers) fd) s).handlers = s.handlers ∧
        (queues.foldl (fun s fd => s.bind (worker, s.handlers) fd) s).Owned worker
          (s.handlers + 1) := by
  induction queues with
  | nil => exact fun h => ⟨rfl, h⟩
  | cons fd queues ih =>
    intro s h
    obtain ⟨hhandlers, howned⟩ := h.bind (Nat.lt_succ_self _) fd
    have hrest := ih (s := s.bind (worker, s.handlers) fd) (by rwa [hhandlers])
    rwa [hhandlers] at hrest

/-- What every worker keeps. -/
structure Inv (s : SyncImpl) (worker : Nat) : Prop where
  le : s.handlers ≤ maxHandlers
  owned : s.Owned worker s.handlers

theorem Inv.addHandler (h : s.Inv worker) (queues : List Fd) :
    (s.addHandler worker queues).1.Inv worker := by
  have hmore : s.Owned worker (s.handlers + 1) := fun r hr => by
    obtain ⟨hworker, hlt, htag⟩ := h.owned r hr
    exact ⟨hworker, hlt.imp_left Nat.lt_succ_of_lt, htag⟩
  obtain ⟨hhandlers, howned⟩ := hmore.bindAll queues
  unfold SyncImpl.addHandler
  dsimp only
  split
  · rename_i hfull
    rw [← hhandlers] at howned
    exact ⟨Nat.le_of_eq hfull, fun r hr => ⟨(howned r hr).1, .inr hfull, (howned r hr).2.2⟩⟩
  · rename_i hroom
    have hle := h.le
    rw [hhandlers] at hroom ⊢
    refine ⟨Nat.lt_of_le_of_ne hle hroom, fun r hr => ?_⟩
    obtain ⟨hworker, hlt, htag⟩ := howned r hr
    refine ⟨hworker, .inl (hlt.resolve_right ?_), htag⟩
    rwa [hhandlers]

theorem Inv.registerFd (h : s.Inv worker) {k : Nat} (hk : k < s.handlers) {fd : Fd}
    {interest : List NotifyOn} {tag : TagValue}
    (hs : s.registerFd (worker, k) (BitVec.ofNat 64 k) fd interest tag = .ok s') :
    s'.Inv worker := by
  obtain ⟨hhandlers, howned⟩ := h.owned.addFd hs ⟨rfl, hk, .inl rfl⟩
  exact ⟨hhandlers ▸ h.le, by rwa [hhandlers]⟩

theorem Inv.modifyFd (h : s.Inv worker) {k : Nat} (hk : k < s.handlers) {fd : Fd}
    {interest : List NotifyOn} {tag : TagValue}
    (hs : s.modifyFd (worker, k) (BitVec.ofNat 64 k) fd interest tag = .ok s') :
    s'.Inv worker := by
  unfold SyncImpl.modifyFd at hs
  split at hs
  · cases hs
    refine ⟨h.le, fun r hr => ?_⟩
    obtain ⟨r', hr', rfl⟩ := List.mem_map.mp hr
    split
    · exact ⟨rfl, .inl hk, .inl rfl⟩
    · exact h.owned r' hr'
  · cases hs

theorem Inv.removeFd (h : s.Inv worker) {fd : Fd} (hs : s.removeFd fd = .ok s') :
    s'.Inv worker := by
  unfold SyncImpl.removeFd at hs
  split at hs
  · cases hs
    exact ⟨h.le, fun r hr => h.owned r (List.mem_of_mem_filter hr)⟩
  · cases hs

end SyncImpl

/-! ## Keys -/

namespace Reactor

/-- A key decodes to the index of the handler and the number of the worker. -/
theorem decodeKey_encodeKey (key : BitVec 64) (value : BitVec 32) :
    decodeKey (encodeKey key value) = (key.setWidth 32, value) := by
  rw [decodeKey, encodeKey, Prod.mk.injEq]
  constructor
  · ext i hi
    simp only [BitVec.getElem_setWidth, BitVec.getLsbD_ushiftRight, BitVec.getLsbD_or,
      BitVec.getLsbD_shiftLeft, BitVec.getLsbD_setWidth]
    simp
    omega
  · rw [BitVec.setWidth_and, BitVec.setWidth_or,
      show (0xFFFFFFFF : BitVec 64).setWidth 32 = BitVec.allOnes 32 from rfl, BitVec.and_allOnes]
    ext i hi
    simp only [BitVec.getElem_or, BitVec.getElem_setWidth, BitVec.getLsbD_shiftLeft,
      BitVec.getLsbD_setWidth]
    simp [hi]
    omega

/-- How many workers a reactor has. -/
def size : Reactor → Nat
  | sync _ => 1
  | async workers => workers.length

theorem lt_size {reactor : Reactor} {i : Nat} {s : SyncImpl} (h : reactor.worker i = some s) :
    i < reactor.size := by
  cases reactor with
  | sync impl =>
    cases i with
    | zero => exact Nat.one_pos
    | succ i => cases h
  | async workers => exact (List.getElem?_eq_some_iff.mp h).1

/-- A member called with the key of a handler is called on the worker of the handler, with the
index that the handler has there. -/
theorem call_worker {reactor : Reactor} (hsize : reactor.size ≤ maxHandlers) {w k : Nat}
    {impl : SyncImpl} (hw : reactor.worker w = some impl) (hk : k < maxHandlers)
    (func : SyncImpl → BitVec 64 → Except Error SyncImpl) :
    (reactor.call (reactor.keyOf w k) func).size = reactor.size ∧
      ∀ i s', (reactor.call (reactor.keyOf w k) func).worker i = some s' →
        ∃ s, reactor.worker i = some s ∧
          (s' = s ∨ (i = w ∧ func s (BitVec.ofNat 64 k) = .ok s')) := by
  have hw' := lt_size hw
  cases reactor with
  | sync impl' =>
    simp only [call, keyOf]
    cases hfunc : func impl' (BitVec.ofNat 64 k) with
    | error e => exact ⟨rfl, fun i s' hs => ⟨s', hs, .inl rfl⟩⟩
    | ok impl'' =>
      refine ⟨rfl, fun i s' hs => ?_⟩
      cases i with
      | succ i => cases hs
      | zero =>
        cases hs
        refine ⟨impl', rfl, .inr ⟨?_, hfunc⟩⟩
        cases w with
        | zero => rfl
        | succ w => cases hw
  | async workers =>
    have hmax : maxHandlers < 2 ^ 32 := by decide
    have hw32 : w < 2 ^ 32 := Nat.lt_of_lt_of_le (Nat.lt_of_lt_of_le hw' hsize) (Nat.le_of_lt hmax)
    have hk32 : k < 2 ^ 32 := Nat.lt_trans hk hmax
    have hworker : (BitVec.ofNat 32 w).toNat = w := by
      rw [BitVec.toNat_ofNat, Nat.mod_eq_of_lt hw32]
    have hkey : ((BitVec.ofNat 64 k).setWidth 32).setWidth 64 = BitVec.ofNat 64 k := by
      refine BitVec.eq_of_toNat_eq ?_
      have hk64 : k < 2 ^ 64 := Nat.lt_trans hk32 (by decide)
      rw [BitVec.toNat_setWidth, BitVec.toNat_setWidth, BitVec.toNat_ofNat,
        Nat.mod_eq_of_lt hk64, Nat.mod_eq_of_lt hk32, Nat.mod_eq_of_lt hk64]
    have hget : workers[w]? = some impl := hw
    simp only [call, keyOf, dispatchCall, decodeKey_encodeKey, hworker, hget, hkey]
    cases hfunc : func impl (BitVec.ofNat 64 k) with
    | error e => exact ⟨rfl, fun i s' hs => ⟨s', hs, .inl rfl⟩⟩
    | ok impl' =>
      simp only [Except.map]
      refine ⟨List.length_set .., fun i s' hs => ?_⟩
      by_cases hi : i = w
      · subst hi
        rw [worker, List.getElem?_set_self (List.getElem?_eq_some_iff.mp hget).1] at hs
        cases hs
        exact ⟨impl, hget, .inr ⟨rfl, hfunc⟩⟩
      · rw [worker, List.getElem?_set_ne (Ne.symm hi)] at hs
        exact ⟨s', hs, .inl rfl⟩

/-- What every reactor keeps. -/
structure Inv (reactor : Reactor) : Prop where
  size_le : reactor.size ≤ maxHandlers
  workers : ∀ i s, reactor.worker i = some s → s.Inv i

theorem addToWorkers_inv (queues : List Fd) : ∀ (workers : List SyncImpl) (n : Nat),
    (∀ i (s : SyncImpl), workers[i]? = some s → s.Inv (n + i)) →
      (addToWorkers queues n workers).length = workers.length ∧
        ∀ i (s : SyncImpl), (addToWorkers queues n workers)[i]? = some s → s.Inv (n + i)
  | [], _, h => ⟨rfl, h⟩
  | worker :: workers, n, h => by
    have hworker := (h 0 worker rfl).addHandler queues
    have hrest := addToWorkers_inv queues workers (n + 1) fun i s hs => by
      rw [Nat.add_assoc, Nat.add_comm 1 i]
      exact h (i + 1) s hs
    rw [Nat.add_zero] at hworker
    unfold addToWorkers
    rcases hadd : worker.addHandler n queues with ⟨worker', key | e⟩
    · rw [hadd] at hworker
      refine ⟨rfl, fun i s hs => ?_⟩
      cases i with
      | zero => cases hs; exact hworker
      | succ i => exact h (i + 1) s hs
    · rw [hadd] at hworker
      refine ⟨congrArg Nat.succ hrest.1, fun i s hs => ?_⟩
      cases i with
      | zero => cases hs; exact hworker
      | succ i =>
        rw [Nat.add_comm i 1, ← Nat.add_assoc]
        exact hrest.2 i s hs

/-- A call with the key of a handler, of a member that keeps the invariant of its worker. -/
theorem Inv.call {reactor : Reactor} (h : reactor.Inv) {w k : Nat}
    {func : SyncImpl → BitVec 64 → Except Error SyncImpl} (hhas : reactor.has w k)
    (hfunc : ∀ s s' : SyncImpl, s.Inv w → k < s.handlers →
      func s (BitVec.ofNat 64 k) = .ok s' → s'.Inv w) :
    (reactor.call (reactor.keyOf w k) func).Inv := by
  unfold has at hhas
  cases hw : reactor.worker w with
  | none => rw [hw] at hhas; cases hhas
  | some impl =>
    rw [hw] at hhas
    have hk : k < impl.handlers := of_decide_eq_true hhas
    have hmax := Nat.lt_of_lt_of_le hk (h.workers w impl hw).le
    obtain ⟨hsize, hworkers⟩ := call_worker h.size_le hw hmax func
    refine ⟨hsize ▸ h.size_le, fun i s' hs' => ?_⟩
    obtain ⟨s, hs, rfl | ⟨rfl, hok⟩⟩ := hworkers i s' hs'
    · exact h.workers i s' hs
    · cases Option.some.inj (hs.symm.trans hw)
      exact hfunc _ s' (h.workers _ _ hw) hk hok

/-- One operation. -/
theorem Inv.step {reactor : Reactor} (h : reactor.Inv) (op : Op) : (reactor.step op).Inv := by
  cases op with
  | addHandler queues =>
    cases reactor with
    | sync impl =>
      refine ⟨h.size_le, fun i s hs => ?_⟩
      cases i with
      | zero => cases hs; exact (h.workers 0 impl rfl).addHandler queues
      | succ i => cases hs
    | async workers =>
      obtain ⟨hlength, hworkers⟩ := addToWorkers_inv queues workers 0 fun i s hs => by
        rw [Nat.zero_add]
        exact h.workers i s hs
      refine ⟨?_, fun i s hs => ?_⟩
      · show (addToWorkers queues 0 workers).length ≤ maxHandlers
        rw [hlength]
        exact h.size_le
      · have hinv := hworkers i s hs
        rwa [Nat.zero_add] at hinv
  | registerFd w k fd interest tag =>
    simp only [Reactor.step]
    split
    · rename_i hhas
      exact h.call hhas fun s s' hs hk hok => hs.registerFd hk hok
    · exact h
  | modifyFd w k fd interest tag =>
    simp only [Reactor.step]
    split
    · rename_i hhas
      exact h.call hhas fun s s' hs hk hok => hs.modifyFd hk hok
    · exact h
  | removeFd w k fd =>
    simp only [Reactor.step]
    split
    · rename_i hhas
      exact h.call hhas fun s s' hs _ hok => hs.removeFd hok
    · exact h

theorem init_inv {threads : Option Nat} {reactor : Reactor} (h : init threads = .ok reactor) :
    reactor.Inv := by
  have hempty : ∀ i, SyncImpl.Inv {} i := fun i => ⟨Nat.zero_le _, fun r hr => nomatch hr⟩
  unfold init at h
  split at h
  · cases h
    refine ⟨by decide, fun i s hs => ?_⟩
    cases i with
    | zero => cases hs; exact hempty 0
    | succ i => cases hs
  · split at h
    · cases h
    · rename_i threads hle
      cases h
      refine ⟨?_, fun i s hs => ?_⟩
      · show (List.replicate threads _).length ≤ maxHandlers
        rw [List.length_replicate]
        exact Nat.le_of_not_lt hle
      · have hmem := List.mem_of_getElem? hs
        rw [(List.mem_replicate.mp hmem).2]
        exact hempty i

theorem Inv.run {reactor : Reactor} (h : reactor.Inv) (ops : List Op) : (run reactor ops).Inv := by
  induction ops generalizing reactor with
  | nil => exact h
  | cons op ops ih => exact ih (h.step op)

end Reactor

/-! ## Dispatch -/

namespace SyncImpl

variable {s : SyncImpl} {worker : Nat}

/-- With any other number of handlers than one, an event makes `handleFds` throw: nothing has
been put into the map. -/
theorem handleFds_throws (hone : s.handlers ≠ 1) (event : Event) (events : List Event) :
    ∃ e, s.handleFds (event :: events) = .error e := by
  rw [handleFds, if_neg hone, collect]
  cases s.handlerAt (decodeTag event.tag).1 with
  | error e => exact ⟨e, rfl⟩
  | ok handler => exact ⟨_, rfl⟩

theorem due_nil (worker : Nat) : s.due worker [] = [] := by
  simp [due]

/-- With one handler, all that is polled is due to it. -/
theorem Inv.due_one (h : s.Inv worker) (hone : s.handlers = 1)
    {polled : List (Registration × List NotifyOn)} (hpolled : ∀ x ∈ polled, x.1 ∈ s.poller)
    (hne : polled ≠ []) : s.due worker polled = [(0, polled.map fun x => ⟨x.2, x.1.value⟩)] := by
  have hall : polled.filter (·.1.owner = (worker, 0)) = polled := by
    refine List.filter_eq_self.mpr fun x hx => ?_
    obtain ⟨hworker, hlt, _⟩ := h.owned x.1 (hpolled x hx)
    have hzero : x.1.owner.2 = 0 := by
      rcases hlt with hlt | hfull
      · omega
      · rw [hone] at hfull
        cases hfull
    exact decide_eq_true (Prod.ext hworker hzero)
  rw [due, hone, show List.range 1 = [0] from rfl, List.filterMap_cons, List.filterMap_nil, hall]
  cases polled with
  | nil => exact absurd rfl hne
  | cons x polled => rfl

/-- The tag that reaches a single handler. -/
theorem Inv.tag_one (h : s.Inv worker) (hone : s.handlers = 1) {r : Registration}
    (hr : r ∈ s.poller) : r.tag = castFd r.value := by
  obtain ⟨_, hlt, htag | ⟨htag, hcast⟩⟩ := h.owned r hr
  · have hzero : r.owner.2 = 0 := by
      rcases hlt with hlt | hfull
      · omega
      · rw [hone] at hfull
        cases hfull
    rw [htag, hzero, encodeTag_eq]
    exact congrArg castFd (BitVec.zero_or ..)
  · rw [htag, hcast]

theorem Inv.dispatches_iff (h : s.Inv worker) {polled : List (Registration × List NotifyOn)}
    (hpolled : ∀ x ∈ polled, x.1 ∈ s.poller) : s.Dispatches worker polled ↔
      polled = [] ∨ (s.handlers = 1 ∧ ∀ x ∈ polled, castFd x.1.value = x.1.value) := by
  by_cases hnil : polled = []
  · subst hnil
    refine iff_of_true ⟨[], rfl, ?_⟩ (.inl rfl)
    rw [due_nil]
  · have hdispatch : s.dispatch (polled.map eventOf) = s.handleFds (polled.map eventOf) := by
      rw [dispatch, if_neg]
      rw [List.length_map]
      exact fun hlength => hnil (List.length_eq_zero_iff.mp hlength)
    rw [Dispatches, hdispatch, or_iff_right hnil]
    by_cases hone : s.handlers = 1
    · rw [handleFds, if_pos hone, h.due_one hone hpolled hnil]
      constructor
      · rintro ⟨calls, hcalls, hperm⟩
        cases hcalls
        refine ⟨hone, fun x hx => ?_⟩
        have heq := (Prod.mk.inj (List.singleton_perm_singleton.mp hperm)).2
        have htag := congrArg Event.tag ((List.map_inj_left.mp heq) x hx)
        rw [← h.tag_one hone (hpolled x hx)]
        exact htag
      · rintro ⟨_, hcast⟩
        refine ⟨_, rfl, ?_⟩
        have heq : polled.map eventOf =
            polled.map fun x => (⟨x.2, x.1.value⟩ : Event) := by
          refine List.map_inj_left.mpr fun x hx => ?_
          rw [eventOf, h.tag_one hone (hpolled x hx), hcast x hx]
        rw [heq]
    · obtain ⟨x, rest, rfl⟩ := List.exists_cons_of_ne_nil hnil
      obtain ⟨e, he⟩ := handleFds_throws hone (eventOf x) (rest.map eventOf)
      refine iff_of_false ?_ fun hpos => hone hpos.1
      rintro ⟨calls, hcalls, _⟩
      rw [List.map_cons, he] at hcalls
      cases hcalls

end SyncImpl

/-- **Dispatch.** After any operations on a reactor of either kind and for any events polled by
one of its workers, the handlers are called as they should be exactly when there are no events,
or one handler whose tags fit an `Fd`; and a tag decodes to the handler index and the value it was
made from exactly when these are the same number, and that fits an `Fd`. -/
theorem Reactor.dispatch_iff (threads : Option Nat) (reactor : Reactor)
    (hinit : Reactor.init threads = .ok reactor) (ops : List Reactor.Op) (worker : Nat)
    (s : SyncImpl) (hs : (Reactor.run reactor ops).worker worker = some s)
    (polled : List (Registration × List NotifyOn)) (hpolled : ∀ x ∈ polled, x.1 ∈ s.poller) :
    (s.Dispatches worker polled ↔
      polled = [] ∨ (s.handlers = 1 ∧ ∀ x ∈ polled, castFd x.1.value = x.1.value)) ∧
    ∀ index value, decodeTag (encodeTag index value) = (index, value) ↔
      index = value ∧ castFd value = value :=
  ⟨(((Reactor.init_inv hinit).run ops).workers worker s hs).dispatches_iff hpolled,
    decodeTag_encodeTag⟩

/-- One handler, one descriptor with its own number as tag. -/
theorem Reactor.dispatch_iff_one :
    let ops := [.addHandler [7], .registerFd 0 0 9 [.read] 9]
    let s : SyncImpl := ⟨1, [⟨7, [.read], 7, (0, 0), 7⟩, ⟨9, [.read], 9, (0, 0), 9⟩]⟩
    let polled : List (Registration × List NotifyOn) :=
      [(⟨9, [.read], 9, (0, 0), 9⟩, [.read]), (⟨7, [.read], 7, (0, 0), 7⟩, [.read])]
    (Reactor.run (.sync {}) ops).worker 0 = some s ∧
    (s.Dispatches 0 polled ↔
      polled = [] ∨ (s.handlers = 1 ∧ ∀ x ∈ polled, castFd x.1.value = x.1.value)) ∧
    ∀ index value, decodeTag (encodeTag index value) = (index, value) ↔
      index = value ∧ castFd value = value :=
  ⟨by decide, Reactor.dispatch_iff none (.sync {}) rfl [.addHandler [7], .registerFd 0 0 9 [.read] 9]
    0 _ (by decide) _ (by decide)⟩

/-- Two handlers and one event of the first: the index that the tag decodes to is the descriptor,
and the lookup throws; with a tag of 1, which decodes to a handler, the empty map throws. -/
theorem Reactor.two_handlers_throw :
    (∃ s, (Reactor.run (.sync {}) [.addHandler [], .addHandler [],
        .registerFd 0 0 9 [.read] 9, .registerFd 0 0 5 [.read] 1]).worker 0 = some s ∧
      s.dispatch [⟨[.read], 9⟩] = .error (.runtime "Attempting to retrieve invalid handler") ∧
      s.dispatch [⟨[.read], 1⟩] = .error .outOfRange ∧
      s.poller = [⟨9, [.read], 9, (0, 0), 9⟩, ⟨5, [.read], 1, (0, 0), 1⟩]) ∧
    decodeTag (encodeTag 0 9) = (9, 9) := by
  refine ⟨⟨⟨2, [⟨9, [.read], 9, (0, 0), 9⟩, ⟨5, [.read], 1, (0, 0), 1⟩]⟩, ?_, ?_, ?_, ?_⟩, ?_⟩
  all_goals decide

end Pistache.Aio

import Mathlib.Data.Finset.Card
import Mathlib.Data.Fintype.Basic
import Mathlib.Logic.Function.Basic
import Mathlib.Data.Fintype.Card
import Tinox.Data.Runs

/-!
# The connections of a server

`tinox_handle_connections` keeps its clients in a table of slots, at the remainders of their
descriptors.  A client is overwritten when another one with the same remainder is accepted.
-/

namespace Tinox.Net.EpollConnections

/-- `EPOLL_MAX_CONNS`. -/
def epollMaxConns : Nat := 4096

/-- `EPOLL_KEEP_ALIVE_MS`. -/
def epollKeepAliveMs : UInt64 := 500

/-- `EpollConnSlot`; `fd` is -1 in a slot that is not used. -/
structure EpollConnSlot where
  fd : Int
  lastMs : UInt64

/-- `g_epoll_slots` and `g_epoll_nconns`, with the descriptors of clients that are open and the
time of the last activity of each. -/
structure State where
  slots : Fin epollMaxConns → EpollConnSlot
  nconns : Int
  clients : Finset Nat
  activity : Nat → UInt64

/-- `fd % EPOLL_MAX_CONNS`. -/
def slotOf (fd : Nat) : Fin epollMaxConns :=
  ⟨fd % epollMaxConns, Nat.mod_lt fd (by decide)⟩

namespace State

/-- The table when `tinox_handle_connections` starts. -/
def start : State where
  slots := fun _ => ⟨-1, 0⟩
  nconns := 0
  clients := ∅
  activity := fun _ => 0

def epollSlotAdd (s : State) (fd : Nat) (nowMs : UInt64) : State :=
  { s with
    nconns := if (s.slots (slotOf fd)).fd < 0 then s.nconns + 1 else s.nconns
    slots := Function.update s.slots (slotOf fd) ⟨fd, nowMs⟩ }

def epollSlotRemove (s : State) (fd : Nat) : State :=
  { s with
    nconns := if 0 ≤ (s.slots (slotOf fd)).fd then s.nconns - 1 else s.nconns
    slots := Function.update s.slots (slotOf fd) { s.slots (slotOf fd) with fd := -1 } }

def close (s : State) (fd : Nat) : State :=
  { s with clients := s.clients.erase fd }

/-- A descriptor becomes that of a client, which is active at a time. -/
def opened (s : State) (fd : Nat) (ms : UInt64) : State :=
  { s with clients := insert fd s.clients, activity := Function.update s.activity fd ms }

/-- The branch for the server's descriptor; `cfd` is the result of `accept`. -/
def acceptClient (s : State) (cfd : Int) (nowMs : UInt64) : State :=
  if 0 ≤ cfd then (s.opened cfd.toNat nowMs).epollSlotAdd cfd.toNat nowMs else s

/-- The branch for the descriptor of a client. -/
def handleClient (s : State) (fd : Nat) (keepAlive : Bool) (nowMs : UInt64) : State :=
  if keepAlive then
    { s with
      slots := Function.update s.slots (slotOf fd) { s.slots (slotOf fd) with lastMs := nowMs }
      activity := Function.update s.activity fd nowMs }
  else (s.epollSlotRemove fd).close fd

/-- The scan for stale connections, at one slot. -/
def scanSlot (nowMs : UInt64) (s : State) (i : Fin epollMaxConns) : State :=
  if (s.slots i).fd < 0 then s
  else if epollKeepAliveMs ≤ nowMs - (s.slots i).lastMs then
    (s.epollSlotRemove (s.slots i).fd.toNat).close (s.slots i).fd.toNat
  else s

/-- The scan for stale connections. -/
def scanStale (s : State) (nowMs : UInt64) : State :=
  if 0 < s.nconns then (List.finRange epollMaxConns).foldl (scanSlot nowMs) s else s

end State

/-- What `tinox_handle_connections` does, with what it is told. -/
inductive Event where
  | accepted (cfd : Int) (nowMs : UInt64)
  | handled (fd : Nat) (keepAlive : Bool) (nowMs : UInt64)
  | scanned (nowMs : UInt64)

def State.after (s : State) : Event → State
  | .accepted cfd nowMs => s.acceptClient cfd nowMs
  | .handled fd keepAlive nowMs => s.handleClient fd keepAlive nowMs
  | .scanned nowMs => s.scanStale nowMs

/-- `accept` makes a descriptor that is not open; an event is for a client that is. -/
def Possible (s : State) : Event → Prop
  | .accepted cfd _ => 0 ≤ cfd → cfd.toNat ∉ s.clients
  | .handled fd _ _ => fd ∈ s.clients
  | .scanned _ => True

def Step (s : State) (event : Event) (s' : State) : Prop :=
  Possible s event ∧ s' = s.after event

def IsStart (s : State) : Prop :=
  s = State.start

/-- The slot for a client that is accepted is not that of another. -/
def Apart (s : State) : Event → Prop
  | .accepted cfd _ => 0 ≤ cfd → ∀ fd ∈ s.clients, slotOf fd ≠ slotOf cfd.toNat
  | .handled _ _ _ => True
  | .scanned _ => True

def ApartStep (s : State) (event : Event) (s' : State) : Prop :=
  Step s event s' ∧ Apart s event

/-- A client was not active for `EPOLL_KEEP_ALIVE_MS`. -/
def Idle (s : State) (fd : Nat) (nowMs : UInt64) : Prop :=
  (s.activity fd).toNat + epollKeepAliveMs.toNat ≤ nowMs.toNat

/-- Each client is in the table once, and no other descriptor; the clients are counted, and each
that is idle is found. -/
structure AllTracked (s : State) : Prop where
  once : ∀ fd ∈ s.clients, ∃! i, (s.slots i).fd = fd
  noneClosed : ∀ i, 0 ≤ (s.slots i).fd → ∃ fd ∈ s.clients, (s.slots i).fd = fd
  occupied : s.nconns = (Finset.univ.filter fun i => 0 ≤ (s.slots i).fd).card
  counted : s.nconns = s.clients.card
  idleFound : ∀ nowMs, ∀ fd ∈ s.clients, Idle s fd nowMs → fd ∉ (s.scanStale nowMs).clients

/-- Each client is in its slot, with the time of its last activity. -/
structure Tracks (s : State) : Prop where
  inSlot : ∀ fd ∈ s.clients, s.slots (slotOf fd) = ⟨fd, s.activity fd⟩
  isClient : ∀ i, 0 ≤ (s.slots i).fd → ∃ fd ∈ s.clients, slotOf fd = i
  counted : s.nconns = s.clients.card

namespace Tracks

variable {s : State}

theorem start : Tracks State.start where
  inSlot := nofun
  isClient := fun _ isUsed => absurd isUsed (show ¬ (0 : Int) ≤ -1 by decide)
  counted := rfl

theorem slotOf_inj (tracks : Tracks s) {fd other : Nat} (isClient : fd ∈ s.clients)
    (isOther : other ∈ s.clients) (same : slotOf fd = slotOf other) : fd = other := by
  have isSlot := tracks.inSlot fd isClient
  rw [same, tracks.inSlot other isOther] at isSlot
  exact (Int.ofNat.inj (congrArg EpollConnSlot.fd isSlot)).symm

theorem eq_slotOf (tracks : Tracks s) {i : Fin epollMaxConns} {fd : Nat}
    (isSlot : (s.slots i).fd = fd) : fd ∈ s.clients ∧ i = slotOf fd := by
  rcases tracks.isClient i (by rw [isSlot]; exact Int.natCast_nonneg fd) with ⟨other, isClient, rfl⟩
  rw [tracks.inSlot other isClient] at isSlot
  have same : other = fd := Int.ofNat.inj isSlot
  subst same
  exact ⟨isClient, rfl⟩

theorem slotOf_ne (tracks : Tracks s) {fd other : Nat} (isClient : fd ∈ s.clients)
    (isOther : other ∈ s.clients.erase fd) : slotOf other ≠ slotOf fd := by
  rw [Finset.mem_erase] at isOther
  exact fun same => isOther.1 (tracks.slotOf_inj isOther.2 isClient same)

theorem removed (tracks : Tracks s) {fd : Nat} (isClient : fd ∈ s.clients) :
    Tracks ((s.epollSlotRemove fd).close fd) := by
  have isUsed : 0 ≤ (s.slots (slotOf fd)).fd := by
    rw [tracks.inSlot fd isClient]
    exact Int.natCast_nonneg fd
  constructor
  · intro other isOther
    change Function.update _ _ _ _ = _
    rw [Function.update_of_ne (tracks.slotOf_ne isClient isOther)]
    exact tracks.inSlot other (Finset.mem_of_mem_erase isOther)
  · intro i isOccupied
    change 0 ≤ (Function.update s.slots (slotOf fd) _ i).fd at isOccupied
    by_cases isSlot : i = slotOf fd
    · rw [isSlot, Function.update_self] at isOccupied
      exact absurd isOccupied (show ¬ (0 : Int) ≤ -1 by decide)
    · rw [Function.update_of_ne isSlot] at isOccupied
      rcases tracks.isClient i isOccupied with ⟨other, isOther, rfl⟩
      refine ⟨other, Finset.mem_erase.mpr ⟨?_, isOther⟩, rfl⟩
      rintro rfl
      exact isSlot rfl
  · change (if 0 ≤ (s.slots (slotOf fd)).fd then s.nconns - 1 else s.nconns) = (s.clients.erase fd).card
    have positive := Finset.card_pos.mpr ⟨fd, isClient⟩
    rw [if_pos isUsed, tracks.counted, Finset.card_erase_of_mem isClient]
    omega

theorem added (tracks : Tracks s) {fd : Nat} (isNew : fd ∉ s.clients)
    (apart : ∀ other ∈ s.clients, slotOf other ≠ slotOf fd) (nowMs : UInt64) :
    Tracks ((s.opened fd nowMs).epollSlotAdd fd nowMs) := by
  have isFree : (s.slots (slotOf fd)).fd < 0 := by
    by_contra isUsed
    rcases tracks.isClient _ (Int.not_lt.mp isUsed) with ⟨other, isOther, same⟩
    exact apart other isOther same
  constructor
  · intro other isClient
    change Function.update s.slots (slotOf fd) ⟨fd, nowMs⟩ (slotOf other) =
      ⟨other, Function.update s.activity fd nowMs other⟩
    rcases Finset.mem_insert.mp isClient with rfl | isOther
    · rw [Function.update_self, Function.update_self]
    · rw [Function.update_of_ne (apart other isOther),
        Function.update_of_ne (ne_of_mem_of_not_mem isOther isNew)]
      exact tracks.inSlot other isOther
  · intro i isOccupied
    change 0 ≤ (Function.update s.slots (slotOf fd) _ i).fd at isOccupied
    by_cases isSlot : i = slotOf fd
    · exact ⟨fd, Finset.mem_insert_self _ _, isSlot.symm⟩
    · rw [Function.update_of_ne isSlot] at isOccupied
      rcases tracks.isClient i isOccupied with ⟨other, isOther, same⟩
      exact ⟨other, Finset.mem_insert_of_mem isOther, same⟩
  · change (if (s.slots (slotOf fd)).fd < 0 then s.nconns + 1 else s.nconns) = (insert fd s.clients).card
    rw [if_pos isFree, tracks.counted, Finset.card_insert_of_notMem isNew]
    rfl

theorem kept (tracks : Tracks s) {fd : Nat} (isClient : fd ∈ s.clients) (nowMs : UInt64) :
    Tracks (s.handleClient fd true nowMs) := by
  constructor
  · intro other isOther
    change Function.update s.slots (slotOf fd) { s.slots (slotOf fd) with lastMs := nowMs } (slotOf other) =
      ⟨other, Function.update s.activity fd nowMs other⟩
    by_cases same : other = fd
    · rw [same, Function.update_self, Function.update_self, tracks.inSlot fd isClient]
    · rw [Function.update_of_ne fun sameSlot => same (tracks.slotOf_inj isOther isClient sameSlot),
        Function.update_of_ne same, tracks.inSlot other isOther]
  · intro i isOccupied
    change 0 ≤ (Function.update s.slots (slotOf fd) _ i).fd at isOccupied
    by_cases isSlot : i = slotOf fd
    · exact ⟨fd, isClient, isSlot.symm⟩
    · rw [Function.update_of_ne isSlot] at isOccupied
      exact tracks.isClient i isOccupied
  · exact tracks.counted

theorem scannedSlot (tracks : Tracks s) (nowMs : UInt64) (i : Fin epollMaxConns) :
    Tracks (State.scanSlot nowMs s i) ∧ (State.scanSlot nowMs s i).activity = s.activity ∧
      ∀ fd, fd ∈ (State.scanSlot nowMs s i).clients ↔
        fd ∈ s.clients ∧ ¬ (slotOf fd = i ∧ epollKeepAliveMs ≤ nowMs - s.activity fd) := by
  rw [State.scanSlot]
  split
  next isFree =>
    refine ⟨tracks, rfl, fun fd => (and_iff_left_of_imp fun isClient => ?_).symm⟩
    rintro ⟨rfl, -⟩
    rw [tracks.inSlot fd isClient] at isFree
    exact absurd isFree (Int.not_lt.mpr (Int.natCast_nonneg fd))
  next isUsed =>
    rcases tracks.isClient i (Int.not_lt.mp isUsed) with ⟨fd, isClient, rfl⟩
    rw [tracks.inSlot fd isClient]
    dsimp only
    split
    next isStale =>
      refine ⟨tracks.removed isClient, rfl, fun other => ?_⟩
      change other ∈ s.clients.erase fd ↔ _
      rw [Finset.mem_erase, and_comm]
      apply and_congr_right
      intro isOther
      apply not_congr
      constructor
      · rintro rfl
        exact ⟨rfl, isStale⟩
      · rintro ⟨same, -⟩
        exact tracks.slotOf_inj isOther isClient same
    next notStale =>
      refine ⟨tracks, rfl, fun other => (and_iff_left_of_imp fun isOther => ?_).symm⟩
      rintro ⟨same, isStale⟩
      rw [tracks.slotOf_inj isOther isClient same] at isStale
      exact notStale isStale

theorem scannedSlots (tracks : Tracks s) (nowMs : UInt64) (slots : List (Fin epollMaxConns)) :
    Tracks (slots.foldl (State.scanSlot nowMs) s) ∧
      ∀ fd, fd ∈ (slots.foldl (State.scanSlot nowMs) s).clients ↔
        fd ∈ s.clients ∧ ¬ (slotOf fd ∈ slots ∧ epollKeepAliveMs ≤ nowMs - s.activity fd) := by
  induction slots generalizing s with
  | nil => exact ⟨tracks, by simp⟩
  | cons i slots ih =>
      rcases tracks.scannedSlot nowMs i with ⟨tracksNext, sameActivity, isNext⟩
      rcases ih tracksNext with ⟨tracksLast, isLast⟩
      refine ⟨tracksLast, fun fd => ?_⟩
      rw [List.foldl_cons, isLast, isNext, sameActivity, List.mem_cons]
      tauto

theorem scanned (tracks : Tracks s) (nowMs : UInt64) :
    Tracks (s.scanStale nowMs) ∧ ∀ fd, fd ∈ (s.scanStale nowMs).clients ↔
      fd ∈ s.clients ∧ ¬ epollKeepAliveMs ≤ nowMs - s.activity fd := by
  rw [State.scanStale]
  split
  next =>
    have spec := tracks.scannedSlots nowMs (List.finRange epollMaxConns)
    simpa only [List.mem_finRange, true_and] using spec
  next noClients =>
    have isEmpty : s.clients = ∅ := by
      rw [tracks.counted] at noClients
      rw [← Finset.card_eq_zero]
      omega
    exact ⟨tracks, fun fd => by simp [isEmpty]⟩

theorem occupied (tracks : Tracks s) :
    (Finset.univ.filter fun i => 0 ≤ (s.slots i).fd) = s.clients.image slotOf := by
  ext i
  rw [Finset.mem_filter_univ, Finset.mem_image]
  constructor
  · exact tracks.isClient i
  · rintro ⟨fd, isClient, rfl⟩
    rw [tracks.inSlot fd isClient]
    exact Int.natCast_nonneg fd

theorem stale_of_idle {fd : Nat} {nowMs : UInt64} (idle : Idle s fd nowMs) :
    epollKeepAliveMs ≤ nowMs - s.activity fd := by
  have notLater : s.activity fd ≤ nowMs := by
    rw [UInt64.le_iff_toNat_le]
    exact Nat.le_trans (Nat.le_add_right _ _) idle
  rw [UInt64.le_iff_toNat_le, UInt64.toNat_sub_of_le _ _ notLater]
  exact Nat.le_sub_of_add_le' idle

theorem allTracked (tracks : Tracks s) : AllTracked s where
  once := fun fd isClient => by
    refine ⟨slotOf fd, ?_, fun i isSlot => (tracks.eq_slotOf isSlot).2⟩
    dsimp only
    rw [tracks.inSlot fd isClient]
  noneClosed := fun i isOccupied => by
    rcases tracks.isClient i isOccupied with ⟨fd, isClient, rfl⟩
    refine ⟨fd, isClient, ?_⟩
    rw [tracks.inSlot fd isClient]
  occupied := by
    rw [tracks.occupied, Finset.card_image_of_injOn, tracks.counted]
    exact fun fd isClient other isOther => tracks.slotOf_inj isClient isOther
  counted := tracks.counted
  idleFound := fun nowMs fd _ idle isOpen =>
    (((tracks.scanned nowMs).2 fd).mp isOpen).2 (stale_of_idle idle)

theorem overwritten (tracks : Tracks s) {cfd : Int} (isFd : 0 ≤ cfd) (isNew : cfd.toNat ∉ s.clients)
    {fd : Nat} (isClient : fd ∈ s.clients) (same : slotOf fd = slotOf cfd.toNat) (nowMs : UInt64) :
    ¬ AllTracked (s.acceptClient cfd nowMs) := by
  intro tracked
  rw [State.acceptClient, if_pos isFd] at tracked
  rcases tracked.once fd (Finset.mem_insert_of_mem isClient) with ⟨i, isSlot, -⟩
  change (Function.update s.slots (slotOf cfd.toNat) ⟨cfd.toNat, nowMs⟩ i).fd = fd at isSlot
  by_cases isNewSlot : i = slotOf cfd.toNat
  · rw [isNewSlot, Function.update_self] at isSlot
    have sameFd : cfd.toNat = fd := Int.ofNat.inj isSlot
    exact isNew (sameFd ▸ isClient)
  · rw [Function.update_of_ne isNewSlot] at isSlot
    exact isNewSlot ((tracks.eq_slotOf isSlot).2.trans same)

theorem step {event : Event} {s' : State} (tracks : Tracks s) (isStep : ApartStep s event s') :
    Tracks s' := by
  rcases isStep with ⟨⟨possible, rfl⟩, apart⟩
  cases event with
  | accepted cfd nowMs =>
      rw [State.after, State.acceptClient]
      split
      next isFd => exact tracks.added (possible isFd) (apart isFd) nowMs
      next => exact tracks
  | handled fd keepAlive nowMs =>
      cases keepAlive with
      | true => exact tracks.kept possible nowMs
      | false => exact tracks.removed possible
  | scanned nowMs => exact (tracks.scanned nowMs).1

theorem of_reached (reached : Runs.Reached IsStart ApartStep s) : Tracks s := by
  apply Runs.Reached.invariant _ _ reached
  · rintro _ rfl
    exact start
  · exact fun _ _ _ tracks isStep => tracks.step isStep

end Tracks

/-- While each client that is accepted gets a slot of its own all clients are tracked; from such a
state on they are after exactly the steps that keep to this. -/
theorem allTracked_of_reached {s : State} (reached : Runs.Reached IsStart ApartStep s) :
    AllTracked s ∧ ∀ event s', Step s event s' → (AllTracked s' ↔ Apart s event) := by
  have tracks := Tracks.of_reached reached
  refine ⟨tracks.allTracked, fun event s' isStep => ?_⟩
  constructor
  · intro tracked
    rcases isStep with ⟨possible, rfl⟩
    cases event with
    | accepted cfd nowMs =>
        intro isFd fd isClient same
        exact tracks.overwritten isFd (possible isFd) isClient same nowMs tracked
    | handled => trivial
    | scanned => trivial
  · exact fun apart => (tracks.step ⟨isStep, apart⟩).allTracked

/-- A client with descriptor 5. -/
def oneClient : State :=
  State.start.acceptClient 5 0

theorem step_oneClient : ApartStep State.start (.accepted 5 0) oneClient :=
  ⟨⟨fun _ => List.not_mem_nil, rfl⟩, fun _ _ isClient => absurd isClient List.not_mem_nil⟩

theorem allTracked_of_reached_oneClient :
    AllTracked oneClient ∧
      ∀ event s', Step oneClient event s' → (AllTracked s' ↔ Apart oneClient event) :=
  allTracked_of_reached (.step (.start rfl) step_oneClient)

/-- A second client overwrites it. -/
theorem secondClient_notTracked :
    Runs.Reached IsStart Step (oneClient.acceptClient 4101 10) ∧
      ¬ AllTracked (oneClient.acceptClient 4101 10) := by
  have isNew : (4101 : Int).toNat ∉ oneClient.clients := by decide
  have isClient : 5 ∈ oneClient.clients := by decide
  have isStep : Step oneClient (.accepted 4101 10) (oneClient.acceptClient 4101 10) :=
    ⟨fun _ => isNew, rfl⟩
  constructor
  · exact .step (.step (.start rfl) step_oneClient.1) isStep
  · exact (Tracks.start.step step_oneClient).overwritten (by decide) isNew isClient rfl 10

end Tinox.Net.EpollConnections

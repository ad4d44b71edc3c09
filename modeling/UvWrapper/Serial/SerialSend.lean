/-
  UvWrapper.Serial.SerialSend — serial_send (serial.c) on any thread, against serial_close, among the
  other descriptors of the process.

      serial_t --handle->fd--> number --the process's table--> open file --write--> line

  serial_run and close_handle run on the loop's thread. close_handle closes the descriptor, unless it is 0,
  and then frees the serial_t: two steps, with those of other threads between them. serial_send is a NULL
  check, a read of handle->fd and a write; it takes no lock. Other parts of the process open and close
  descriptors of their own at any moment; an open gets the lowest free number. Files are told apart by the
  open they came from, and a serial_t by its device's. uv_poll_init takes the device's descriptor. write takes
  some of the bytes, or fails. close_handle comes to a serial_t once (`UvWrapper.Serial.SerialLife`), and
  sends may still hold its address.

  `uaf`: a freed serial_t was read. Nothing is said of what follows it. The lines are what serial_send
  has put on them.

  Proved: a run reads no freed serial_t, and every line has just what the sends on its own serial_t said
  was taken, if and only if no send reads handle->fd after the free, or after the close writes to a number
  that was given away (`lines_iff`). A close is safe, whatever comes after it, if and only if no send on the
  serial_t is inside, but for one that has its descriptor and nothing to write, or descriptor 0 (`close_iff`).
-/

import Mathlib.Logic.Function.Basic
import UvWrapper.Lib.Descriptors
import UvWrapper.Lib.Trace

namespace UvWrapper.Serial.SerialSend

open UvWrapper.Lib UvWrapper.Lib.Descriptors UvWrapper.Lib.Trace

/-! ## State -/

structure Port where
  fd : Nat
  /-- close_handle is past its close. -/
  closed : Bool
  freed : Bool
  deriving DecidableEq, Repr

structure Call where
  port : Nat
  data : List UInt8
  /-- handle->fd, once it is read. -/
  fd : Option Nat
  deriving DecidableEq, Repr

structure Ret where
  port : Nat
  data : List UInt8
  ret : Int
  deriving DecidableEq, Repr

def Ret.taken (r : Ret) : List UInt8 := r.data.take r.ret.toNat

structure St where
  table : Table Nat
  /-- How many files were opened, which is the next one's name. -/
  opens : Nat
  ports : Nat → Option Port
  /-- The call of each thread. Thread 0 is the loop's. -/
  call : Nat → Option Call
  /-- The serial_t whose close_handle has its free to come. -/
  closing : Option Nat
  rets : List Ret
  line : Nat → List UInt8
  uaf : Bool

/-- `k` files are open, behind the first `k` numbers. -/
def init (k : Nat) : St := ⟨.ofList (List.range k), k, fun _ => none, fun _ => none, none, [], fun _ => [], false⟩

/-! ## The code -/

def opened (s : St) : St := { s with table := s.table.opened s.opens, opens := s.opens + 1 }

/-- What malloc, open and the two callocs say. -/
def serialRun (s : St) (malloc opens poller asyncClose : Bool) : St :=
  if !malloc then s
  else if !opens then s
  else if !poller then opened s
  else if !asyncClose then opened s
  else { opened s with ports := Function.update s.ports s.opens (some ⟨s.table.lowest, false, false⟩) }

/-- `close_handle`, up to its free. -/
def closeHandle (s : St) (h : Nat) (p : Port) : St :=
  { s with table := if 0 < p.fd then s.table.closed p.fd else s.table
           ports := Function.update s.ports h (some { p with closed := true })
           closing := some h }

def freeHandle (s : St) (h : Nat) (p : Port) : St :=
  { s with ports := Function.update s.ports h (some { p with freed := true }), closing := none }

def writes (s : St) (f : Nat) (bytes : List UInt8) : St := { s with line := Function.update s.line f (s.line f ++ bytes) }

def returns (s : St) (t : Nat) (c : Call) (ret : Int) : St :=
  { s with call := Function.update s.call t none, rets := s.rets ++ [⟨c.port, c.data, ret⟩] }

/-- The next step of a serial_send: it reads handle->fd, then it writes. `n`: how many bytes write takes,
    -1 as `none`. -/
def serialSend (s : St) (t : Nat) (c : Call) (p : Port) (n : Option Nat) : St :=
  match c.fd with
  | none =>
    if p.freed then { s with uaf := true }
    else { s with call := Function.update s.call t (some { c with fd := some p.fd }) }
  | some fd =>
    match s.table.file fd, n with
    | some f, some n => returns (writes s f (c.data.take n)) t c n
    | _, _ => returns s t c (-1)

inductive Event where
  | serialRun (malloc opens poller asyncClose : Bool)
  /-- Another open of the process, and another close. -/
  | opens
  | closes (fd : Nat)
  | closeHandle (h : Nat)
  | free
  /-- Thread `t` calls serial_send. -/
  | send (t : Nat) (handle : Option Nat) (data : List UInt8)
  | next (t : Nat) (n : Option Nat)
  deriving DecidableEq, Repr

def loopFree (s : St) : Bool := (s.call 0).isNone && s.closing.isNone

def step (s : St) (e : Event) : Option St :=
  if s.uaf then none
  else match e with
  | .serialRun malloc opens poller asyncClose =>
    if loopFree s then some (serialRun s malloc opens poller asyncClose) else none
  | .opens => some (opened s)
  | .closes fd =>
    (s.table.file fd).bind fun f => if s.ports f = none then some { s with table := s.table.closed fd } else none
  | .closeHandle h =>
    (s.ports h).bind fun p => if p.closed = false ∧ loopFree s then some (closeHandle s h p) else none
  | .free => s.closing.bind fun h => (s.ports h).map (freeHandle s h)
  | .send t handle data =>
    if s.call t = none ∧ (t = 0 → s.closing = none) then
      match handle with
      | none => some s
      | some h =>
        (s.ports h).map fun _ => { s with call := Function.update s.call t (some ⟨h, data, none⟩) }
    else none
  | .next t n =>
    (s.call t).bind fun c => (s.ports c.port).bind fun p =>
      if n.getD 0 ≤ c.data.length then some (serialSend s t c p n) else none

/-! ## What is promised -/

/-- What the sends on `f`'s serial_t said was taken. -/
def St.own (s : St) (f : Nat) : List UInt8 := (s.rets.filter (·.port = f)).flatMap Ret.taken

structure Delivers (s : St) : Prop where
  uaf : s.uaf = false
  line : ∀ f, s.line f = s.own f

/-- A send reads handle->fd before the free; a write after the close has 0 (close_handle leaves it open), or a
    number with nothing behind it, or takes nothing. -/
structure Fine (s : St) (c : Call) (p : Port) (n : Option Nat) : Prop where
  read : c.fd = none → p.freed = false
  write : ∀ fd, c.fd = some fd → p.closed = true → fd = 0 ∨ s.table.file fd = none ∨ n.getD 0 = 0

def Ok (s : St) : Event → Prop
  | .next t n => ∀ c p, s.call t = some c → s.ports c.port = some p → Fine s c p n
  | _ => True

variable {s s' : St} {e : Event} {h t f fd : Nat} {p : Port} {c : Call} {n : Option Nat} {data : List UInt8}

/-! ## What a step does -/

/-- A port for the file behind `fd`. -/
def attach (s : St) (f fd : Nat) : St := { s with ports := Function.update s.ports f (some ⟨fd, false, false⟩) }

/-- A send has begun, or has gone on: the files, the numbers and the ports are as they were. -/
structure Same (s s' : St) : Prop where
  table : s'.table = s.table
  opens : s'.opens = s.opens
  ports : s'.ports = s.ports

theorem step_cases (he : step s e = some s') :
    (s' = s) ∨
    (s' = opened s) ∨
    (∃ malloc op poller asyncClose, e = .serialRun malloc op poller asyncClose ∧
      s' = attach (opened s) s.opens s.table.lowest) ∨
    (∃ fd f, e = .closes fd ∧ s.table.file fd = some f ∧ s.ports f = none ∧
      s' = { s with table := s.table.closed fd }) ∨
    (∃ h p, e = .closeHandle h ∧ s.ports h = some p ∧ p.closed = false ∧ s' = closeHandle s h p) ∨
    (∃ h p, e = .free ∧ s.ports h = some p ∧ s' = freeHandle s h p) ∨
    (∃ t h data p, e = .send t (some h) data ∧ s.call t = none ∧ s.ports h = some p ∧
      s' = { s with call := Function.update s.call t (some ⟨h, data, none⟩) }) ∨
    ∃ t n c p, e = .next t n ∧ s.call t = some c ∧ s.ports c.port = some p ∧ n.getD 0 ≤ c.data.length ∧
      s' = serialSend s t c p n := by
  unfold step at he
  split at he
  · cases he
  · cases e with
    | serialRun malloc op poller asyncClose =>
      simp only [serialRun] at he
      split at he
      · cases he
        cases malloc <;> cases op <;> cases poller <;> cases asyncClose <;> simp [attach, opened]
      · cases he
    | opens =>
      obtain rfl := Option.some.inj he
      exact .inr (.inl rfl)
    | closes fd =>
      obtain ⟨f, hf, he⟩ := Option.bind_eq_some_iff.mp he
      split at he
      · obtain rfl := (Option.some.inj he).symm
        exact .inr (.inr (.inr (.inl ⟨fd, f, rfl, hf, ‹_›, rfl⟩)))
      · cases he
    | closeHandle h =>
      obtain ⟨p, hp, he⟩ := Option.bind_eq_some_iff.mp he
      split at he
      · rename_i hc
        obtain rfl := (Option.some.inj he).symm
        exact .inr (.inr (.inr (.inr (.inl ⟨h, p, rfl, hp, hc.1, rfl⟩))))
      · cases he
    | free =>
      obtain ⟨h, -, he⟩ := Option.bind_eq_some_iff.mp he
      obtain ⟨p, hp, rfl⟩ := Option.map_eq_some_iff.mp he
      exact .inr (.inr (.inr (.inr (.inr (.inl ⟨h, p, rfl, hp, rfl⟩)))))
    | send t handle data =>
      simp only at he
      split at he
      · rename_i ht
        cases handle with
        | none =>
          cases he
          exact .inl rfl
        | some h =>
          obtain ⟨p, hp, rfl⟩ := Option.map_eq_some_iff.mp he
          exact .inr (.inr (.inr (.inr (.inr (.inr (.inl ⟨t, h, data, p, rfl, ht.1, hp, rfl⟩))))))
      · cases he
    | next t n =>
      obtain ⟨c, hc, he⟩ := Option.bind_eq_some_iff.mp he
      obtain ⟨p, hp, he⟩ := Option.bind_eq_some_iff.mp he
      split at he
      · rename_i hn
        obtain rfl := (Option.some.inj he).symm
        exact .inr (.inr (.inr (.inr (.inr (.inr (.inr ⟨t, n, c, p, rfl, hc, hp, hn, rfl⟩))))))
      · cases he

theorem not_uaf (he : step s e = some s') : s.uaf = false := by
  unfold step at he
  split at he
  · cases he
  · exact Bool.eq_false_iff.mpr ‹_›

theorem next_iff (hu : s.uaf = false) :
    step s (.next t n) = some s' ↔ ∃ c p, s.call t = some c ∧ s.ports c.port = some p ∧ n.getD 0 ≤ c.data.length ∧
      serialSend s t c p n = s' := by
  unfold step
  rw [if_neg (by simp [hu])]
  simp only [Option.bind_eq_some_iff, Option.ite_none_right_eq_some, Option.some.injEq]
  constructor
  · rintro ⟨c, hc, p, hp, hn, hs⟩
    exact ⟨c, p, hc, hp, hn, hs⟩
  · rintro ⟨c, p, hc, hp, hn, hs⟩
    exact ⟨c, hc, p, hp, hn, hs⟩

/-- The four things that the next step of a send does. -/
theorem serialSend_cases (s : St) (t : Nat) (c : Call) (p : Port) (n : Option Nat) :
    (c.fd = none ∧ p.freed = true ∧ serialSend s t c p n = { s with uaf := true }) ∨
    (c.fd = none ∧ p.freed = false ∧
      serialSend s t c p n = { s with call := Function.update s.call t (some { c with fd := some p.fd }) }) ∨
    (∃ fd, c.fd = some fd ∧ (s.table.file fd = none ∨ n = none) ∧ serialSend s t c p n = returns s t c (-1)) ∨
    (∃ fd f m, c.fd = some fd ∧ s.table.file fd = some f ∧ n = some m ∧
      serialSend s t c p n = returns (writes s f (c.data.take m)) t c m) := by
  unfold serialSend
  cases hc : c.fd with
  | none =>
    cases hp : p.freed with
    | true => exact .inl ⟨rfl, rfl, rfl⟩
    | false => exact .inr (.inl ⟨rfl, rfl, rfl⟩)
  | some fd =>
    cases hf : s.table.file fd with
    | none => exact .inr (.inr (.inl ⟨fd, rfl, .inl hf, by simp [hf]⟩))
    | some f =>
      cases n with
      | none => exact .inr (.inr (.inl ⟨fd, rfl, .inr rfl, by simp [hf]⟩))
      | some m => exact .inr (.inr (.inr ⟨fd, f, m, rfl, hf, rfl, by simp [hf]⟩))

theorem serialSend_same (s : St) (t : Nat) (c : Call) (p : Port) (n : Option Nat) :
    Same s (serialSend s t c p n) := by
  obtain ⟨-, -, hs⟩ | ⟨-, -, hs⟩ | ⟨_, -, -, hs⟩ | ⟨_, _, _, -, -, -, hs⟩ := serialSend_cases s t c p n <;>
    rw [hs] <;> exact ⟨rfl, rfl, rfl⟩

/-! ## Numbers, files and ports -/

structure Inv (s : St) : Prop where
  fresh : ∀ n f, s.table.file n = some f → f < s.opens
  distinct : ∀ n m f, s.table.file n = some f → s.table.file m = some f → n = m
  portFresh : ∀ h p, s.ports h = some p → h < s.opens
  /-- close_handle closes no descriptor 0. -/
  behind : ∀ h p, s.ports h = some p → p.closed = false ∨ p.fd = 0 → s.table.file p.fd = some h
  gone : ∀ h p, s.ports h = some p → p.closed = true → p.fd ≠ 0 → ∀ n, s.table.file n ≠ some h
  call : ∀ t c, s.call t = some c → ∃ p, s.ports c.port = some p ∧ ∀ fd, c.fd = some fd → fd = p.fd

/-- Where a send's bytes go: to its own device until the number is given away. -/
theorem Inv.file_eq_iff (hi : Inv s) (hp : s.ports h = some p) (hf : s.table.file p.fd = some f) :
    f = h ↔ p.closed = false ∨ p.fd = 0 := by
  constructor
  · rintro rfl
    refine Classical.byContradiction fun hn => ?_
    rw [not_or, Bool.not_eq_false] at hn
    exact hi.gone _ p hp hn.1 hn.2 _ hf
  · intro hl
    exact Option.some.inj (hf.symm.trans (hi.behind h p hp hl))

theorem Inv.call_fd (hi : Inv s) (hc : s.call t = some c) (hp : s.ports c.port = some p) (hfd : c.fd = some fd) :
    fd = p.fd := by
  obtain ⟨q, hq, hfq⟩ := hi.call t c hc
  rw [hp] at hq
  cases hq
  exact hfq fd hfd

theorem init_inv (k : Nat) : Inv (init k) := by
  have hf : ∀ n f, (init k).table.file n = some f → n = f ∧ f < k := by
    intro n f hn
    rw [show (init k).table = .ofList (List.range k) from rfl, Table.file_ofList, List.getElem?_eq_some_iff] at hn
    obtain ⟨hlt, rfl⟩ := hn
    rw [List.getElem_range]
    rw [List.length_range] at hlt
    exact ⟨rfl, hlt⟩
  exact ⟨fun n f hn => (hf n f hn).2, fun n m f hn hm => (hf n f hn).1.trans (hf m f hm).1.symm,
    (fun _ _ hp => by cases hp), (fun _ _ hp => by cases hp), (fun _ _ hp => by cases hp),
    (fun _ _ hc => by cases hc)⟩

theorem opened_inv (hi : Inv s) : Inv (opened s) := by
  have hf : ∀ n f, (opened s).table.file n = some f → (n = s.table.lowest ∧ f = s.opens) ∨
      (s.table.file n = some f ∧ f < s.opens) := by
    intro n f hn
    rw [show (opened s).table = s.table.opened s.opens from rfl, Table.file_opened] at hn
    split at hn
    · exact .inl ⟨‹_›, (Option.some.inj hn).symm⟩
    · exact .inr ⟨hn, hi.fresh n f hn⟩
  refine ⟨fun n f hn => ?_, fun n m f hn hm => ?_, fun h p hp => ?_, fun h p hp hl => ?_, fun h p hp hr h0 n hn => ?_,
    hi.call⟩
  · show _ < s.opens + 1
    rcases hf n f hn with ⟨-, rfl⟩ | ⟨-, hlt⟩ <;> omega
  · rcases hf n f hn with ⟨rfl, rfl⟩ | ⟨hn, hlt⟩ <;> rcases hf m _ hm with ⟨rfl, hm⟩ | ⟨hm, hlt'⟩
    · rfl
    · omega
    · omega
    · exact hi.distinct n m f hn hm
  · exact Nat.lt_succ_of_lt (hi.portFresh h p hp)
  · have hb := hi.behind h p hp hl
    show (s.table.opened s.opens).file p.fd = some h
    have hne : p.fd ≠ s.table.lowest := by
      intro he
      rw [he, Table.file_lowest] at hb
      cases hb
    rw [Table.file_opened, if_neg hne, hb]
  · rcases hf n _ hn with ⟨-, rfl⟩ | ⟨hn, -⟩
    · exact Nat.lt_irrefl _ (hi.portFresh _ p hp)
    · exact hi.gone h p hp hr h0 n hn

theorem ports_update {j : Nat} {q r : Port} (h : Function.update s.ports f (some q) j = some r) :
    (j = f ∧ r = q) ∨ (j ≠ f ∧ s.ports j = some r) := by
  by_cases hj : j = f
  · subst hj
    rw [Function.update_self] at h
    exact .inl ⟨rfl, (Option.some.inj h).symm⟩
  · rw [Function.update_of_ne hj] at h
    exact .inr ⟨hj, h⟩

theorem attach_inv (hi : Inv s) (hf : s.table.file fd = some f) (hp : s.ports f = none) : Inv (attach s f fd) := by
  refine ⟨hi.fresh, hi.distinct, fun h p he => ?_, fun h p he hl => ?_, fun h p he hr h0 => ?_, fun t c hc => ?_⟩
  · obtain ⟨rfl, rfl⟩ | ⟨-, he⟩ := ports_update he
    · exact hi.fresh _ _ hf
    · exact hi.portFresh h p he
  · obtain ⟨rfl, rfl⟩ | ⟨-, he⟩ := ports_update he
    · exact hf
    · exact hi.behind h p he hl
  · obtain ⟨rfl, rfl⟩ | ⟨-, he⟩ := ports_update he
    · cases hr
    · exact hi.gone h p he hr h0
  · obtain ⟨p, he, hfd⟩ := hi.call t c hc
    have hne : c.port ≠ f := fun hcf => by rw [hcf, hp] at he; cases he
    exact ⟨p, (Function.update_of_ne hne ..).trans he, hfd⟩

/-- The rest of the process gives a number of its own away. -/
theorem closed_inv (hi : Inv s) (hf : s.table.file fd = some f) (hp : s.ports f = none) :
    Inv { s with table := s.table.closed fd } := by
  have hfile : ∀ n f, (s.table.closed fd).file n = some f → s.table.file n = some f := by
    intro n f he
    rw [Table.file_closed] at he
    split at he
    · cases he
    · exact he
  refine ⟨fun n f he => hi.fresh n f (hfile n f he),
    fun n m f he he' => hi.distinct n m f (hfile n f he) (hfile m f he'), hi.portFresh, fun h p he hl => ?_,
    fun h p he hr h0 n he' => hi.gone h p he hr h0 n (hfile n h he'), hi.call⟩
  have hb := hi.behind h p he hl
  have hne : p.fd ≠ fd := by
    intro hfd
    rw [hfd, hf] at hb
    obtain rfl := Option.some.inj hb
    rw [hp] at he
    cases he
  show (s.table.closed fd).file p.fd = some h
  rw [Table.file_closed, if_neg hne, hb]

/-- close_handle takes nothing but `h` from the table. -/
theorem closeHandle_file (hi : Inv s) (hp : s.ports h = some p) (hf : p.closed = false) (n f : Nat) :
    (closeHandle s h p).table.file n = some f ↔ s.table.file n = some f ∧ (f = h → p.fd = 0) := by
  have hb := hi.behind h p hp (.inl hf)
  unfold closeHandle
  by_cases h0 : 0 < p.fd
  · rw [if_pos h0, Table.file_closed]
    by_cases hn : n = p.fd
    · rw [if_pos hn, hn, hb]
      refine ⟨fun he => (by cases he), fun ⟨he, hz⟩ => ?_⟩
      have := hz (Option.some.inj he).symm
      omega
    · rw [if_neg hn]
      refine ⟨fun he => ⟨he, fun hfh => ?_⟩, And.left⟩
      exact absurd (hi.distinct n p.fd f he (hfh ▸ hb)) hn
  · rw [if_neg h0]
    exact ⟨fun he => ⟨he, fun _ => by omega⟩, And.left⟩

theorem closeHandle_inv (hi : Inv s) (hp : s.ports h = some p) (hf : p.closed = false) : Inv (closeHandle s h p) := by
  have hfile := closeHandle_file hi hp hf
  refine ⟨fun n f he => hi.fresh n f ((hfile n f).mp he).1,
    fun n m f he he' => hi.distinct n m f ((hfile n f).mp he).1 ((hfile m f).mp he').1,
    fun j q he => ?_, fun j q he hl => ?_, fun j q he hr hq n he' => ?_, fun t c hc => ?_⟩
  · obtain ⟨rfl, rfl⟩ | ⟨-, he⟩ := ports_update he
    · exact hi.portFresh _ p hp
    · exact hi.portFresh j q he
  · refine (hfile _ _).mpr ?_
    obtain ⟨rfl, rfl⟩ | ⟨hne, he⟩ := ports_update he
    · exact ⟨hi.behind _ p hp (.inl hf), fun _ => hl.resolve_left (by simp)⟩
    · exact ⟨hi.behind j q he hl, fun hj => absurd hj hne⟩
  · obtain ⟨he', hz⟩ := (hfile n j).mp he'
    obtain ⟨rfl, rfl⟩ | ⟨-, he⟩ := ports_update he
    · exact hq (hz rfl)
    · exact hi.gone j q he hr hq n he'
  · obtain ⟨q, hq, hfd⟩ := hi.call t c hc
    by_cases hj : c.port = h
    · rw [hj, hp] at hq
      obtain rfl := Option.some.inj hq
      exact ⟨{ p with closed := true }, (congrArg _ hj).trans (Function.update_self ..), hfd⟩
    · exact ⟨q, (Function.update_of_ne hj ..).trans hq, hfd⟩

theorem freeHandle_inv (hi : Inv s) (hp : s.ports h = some p) : Inv (freeHandle s h p) := by
  refine ⟨hi.fresh, hi.distinct, fun j q he => ?_, fun j q he hl => ?_, fun j q he hr hq => ?_, fun t c hc => ?_⟩
  · obtain ⟨rfl, rfl⟩ | ⟨-, he⟩ := ports_update he
    · exact hi.portFresh _ p hp
    · exact hi.portFresh j q he
  · obtain ⟨rfl, rfl⟩ | ⟨-, he⟩ := ports_update he
    · exact hi.behind _ p hp hl
    · exact hi.behind j q he hl
  · obtain ⟨rfl, rfl⟩ | ⟨-, he⟩ := ports_update he
    · exact hi.gone _ p hp hr hq
    · exact hi.gone j q he hr hq
  · obtain ⟨q, hq, hfd⟩ := hi.call t c hc
    by_cases hj : c.port = h
    · rw [hj, hp] at hq
      obtain rfl := Option.some.inj hq
      exact ⟨{ p with freed := true }, (congrArg _ hj).trans (Function.update_self ..), hfd⟩
    · exact ⟨q, (Function.update_of_ne hj ..).trans hq, hfd⟩

/-- A send has begun, or gone on. -/
theorem same_inv (hi : Inv s) (hs : Same s s')
    (hc : ∀ t c, s'.call t = some c → ∃ p, s.ports c.port = some p ∧ ∀ fd, c.fd = some fd → fd = p.fd) : Inv s' := by
  obtain ⟨ht, ho, hp⟩ := hs
  refine ⟨?_, ?_, ?_, ?_, ?_, ?_⟩
  · rw [ht, ho]; exact hi.fresh
  · rw [ht]; exact hi.distinct
  · rw [hp, ho]; exact hi.portFresh
  · rw [hp, ht]; exact hi.behind
  · rw [hp, ht]; exact hi.gone
  · rw [hp]; exact hc

theorem call_update {j : Nat} {x : Option Call} (h : Function.update s.call t x j = some c) :
    (j = t ∧ x = some c) ∨ s.call j = some c := by
  by_cases hj : j = t
  · subst hj
    rw [Function.update_self] at h
    exact .inl ⟨rfl, h⟩
  · rw [Function.update_of_ne hj] at h
    exact .inr h

theorem returns_call {ret : Int} {j : Nat} {d : Call} (h : (returns s t c ret).call j = some d) : s.call j = some d := by
  obtain ⟨-, h⟩ | h := call_update h
  · cases h
  · exact h

theorem serialSend_inv (hi : Inv s) (hp : s.ports c.port = some p) : Inv (serialSend s t c p n) := by
  refine same_inv hi (serialSend_same s t c p n) fun j d hd => ?_
  obtain ⟨-, -, hs⟩ | ⟨-, -, hs⟩ | ⟨_, -, -, hs⟩ | ⟨_, _, _, -, -, -, hs⟩ := serialSend_cases s t c p n
  · rw [hs] at hd
    exact hi.call j d hd
  · rw [hs] at hd
    obtain ⟨-, hd⟩ | hd := call_update hd
    · obtain rfl := Option.some.inj hd
      exact ⟨p, hp, fun fd he => (Option.some.inj he).symm⟩
    · exact hi.call j d hd
  · rw [hs] at hd
    exact hi.call j d (returns_call hd)
  · rw [hs] at hd
    have hd := returns_call hd
    exact hi.call j d hd

theorem step_inv (hi : Inv s) (he : step s e = some s') : Inv s' := by
  obtain rfl | rfl | ⟨_, _, _, _, -, rfl⟩ | ⟨fd, f, -, hf, hp, rfl⟩ | ⟨h, p, -, hp, hf, rfl⟩ |
    ⟨h, p, -, hp, rfl⟩ | ⟨t, h, data, p, -, -, hp, rfl⟩ | ⟨t, n, c, p, -, -, hp, -, rfl⟩ := step_cases he
  · exact hi
  · exact opened_inv hi
  · refine attach_inv (opened_inv hi) ?_ ?_
    · show (s.table.opened s.opens).file s.table.lowest = some s.opens
      rw [Table.file_opened, if_pos rfl]
    · cases hq : (opened s).ports s.opens with
      | none => rfl
      | some q => exact absurd (hi.portFresh _ q hq) (Nat.lt_irrefl _)
  · exact closed_inv hi hf hp
  · exact closeHandle_inv hi hp hf
  · exact freeHandle_inv hi hp
  · refine same_inv hi ⟨rfl, rfl, rfl⟩ fun j d hd => ?_
    obtain ⟨-, hd⟩ | hd := call_update hd
    · obtain rfl := Option.some.inj hd
      exact ⟨p, hp, fun fd he => (by cases he)⟩
    · exact hi.call j d hd
  · exact serialSend_inv hi hp

theorem reach_inv {k : Nat} {ok : St → Event → Prop} (hr : Reach step ok (init k) s) : Inv s :=
  hr.invariant (init_inv k) fun _ _ _ hi _ he => step_inv hi he

/-! ## What is on the lines -/

theorem returns_own (s : St) (t : Nat) (c : Call) (ret : Int) (f : Nat) :
    (returns s t c ret).own f = s.own f ++ if c.port = f then c.data.take ret.toNat else [] := by
  unfold St.own returns
  rw [List.filter_append, List.flatMap_append]
  congr 1
  by_cases hf : c.port = f <;> simp [hf, Ret.taken]

theorem writes_line (s : St) (g : Nat) (bytes : List UInt8) (f : Nat) :
    (writes s g bytes).line f = s.line f ++ if g = f then bytes else [] := by
  show Function.update s.line g (s.line g ++ bytes) f = _
  by_cases hf : g = f
  · subst hf
    rw [Function.update_self, if_pos rfl]
  · rw [Function.update_of_ne (Ne.symm hf), if_neg hf, List.append_nil]

/-- A send's bytes are on its own line, or there are none. -/
theorem written_delivers (hd : Delivers s) (m : Nat) (hf : f = c.port ∨ c.data.take m = []) :
    Delivers (returns (writes s f (c.data.take m)) t c m) := by
  refine ⟨hd.uaf, fun g => ?_⟩
  rw [returns_own]
  show (writes s f (c.data.take m)).line g = s.own g ++ if c.port = g then c.data.take m else []
  rw [writes_line, hd.line g]
  rcases hf with rfl | h0
  · rfl
  · rw [h0, ite_self, ite_self]

theorem step_delivers (hi : Inv s) (hd : Delivers s) (hok : Ok s e) (he : step s e = some s') : Delivers s' := by
  obtain rfl | rfl | ⟨_, _, _, _, -, rfl⟩ | ⟨_, _, -, -, -, rfl⟩ | ⟨_, _, -, -, -, rfl⟩ | ⟨_, _, -, -, rfl⟩ |
    ⟨_, _, _, _, -, -, -, rfl⟩ | ⟨t, n, c, p, rfl, hc, hp, -, rfl⟩ := step_cases he
  · exact hd
  · exact ⟨hd.uaf, hd.line⟩
  · exact ⟨hd.uaf, hd.line⟩
  · exact ⟨hd.uaf, hd.line⟩
  · exact ⟨hd.uaf, hd.line⟩
  · exact ⟨hd.uaf, hd.line⟩
  · exact ⟨hd.uaf, hd.line⟩
  · have hfine : Fine s c p n := hok c p hc hp
    obtain ⟨hfd, hr, -⟩ | ⟨-, -, hs⟩ | ⟨_, -, -, hs⟩ | ⟨fd, f, m, hfd, hf, rfl, hs⟩ := serialSend_cases s t c p n
    · rw [hfine.read hfd] at hr
      cases hr
    · rw [hs]
      exact ⟨hd.uaf, hd.line⟩
    · rw [hs]
      refine ⟨hd.uaf, fun g => ?_⟩
      rw [returns_own, show (-1 : Int).toNat = 0 from rfl, List.take_zero, ite_self, List.append_nil]
      exact hd.line g
    · rw [hs]
      refine written_delivers hd m ?_
      have hpf := hi.call_fd hc hp hfd
      by_cases hl : p.closed = false ∨ p.fd = 0
      · exact .inl ((hi.file_eq_iff hp (hpf ▸ hf)).mpr hl)
      · rw [not_or, Bool.not_eq_false] at hl
        rcases hfine.write fd hfd hl.1 with h0 | h0 | h0
        · exact absurd (hpf ▸ h0) hl.2
        · rw [hf] at h0
          cases h0
        · rw [show m = 0 from h0]
          exact .inr List.take_zero

/-- A send that is overtaken and goes on. -/
theorem overtaken (hi : Inv s) (hd : Delivers s) (hc : s.call t = some c) (hp : s.ports c.port = some p)
    (hn : n.getD 0 ≤ c.data.length) (hno : ¬ Fine s c p n) : ¬ Delivers (serialSend s t c p n) := by
  intro hd'
  obtain ⟨-, -, hs⟩ | ⟨hfd, hf, -⟩ | ⟨fd, hfd, hnone, -⟩ | ⟨fd, f, m, hfd, hf, rfl, hs⟩ := serialSend_cases s t c p n
  · have := hd'.uaf
    rw [hs] at this
    cases this
  · refine hno ⟨fun _ => hf, fun fd he => ?_⟩
    rw [hfd] at he
    cases he
  · refine hno ⟨fun he => ?_, fun fd' he _ => .inr ?_⟩
    · rw [hfd] at he
      cases he
    · rw [hfd] at he
      cases he
      exact hnone.imp_right fun h => by rw [h]; rfl
  · obtain ⟨hcl, h0, hm⟩ : p.closed = true ∧ fd ≠ 0 ∧ m ≠ 0 := by
      refine Classical.byContradiction fun hnot => hno ⟨fun he => ?_, fun fd' he hcl => ?_⟩
      · rw [hfd] at he
        cases he
      · rw [hfd] at he
        cases he
        refine Classical.byContradiction fun h => hnot ⟨hcl, fun h0 => h (.inl h0), fun h0 => h (.inr (.inr h0))⟩
    have hpf := hi.call_fd hc hp hfd
    have hne : ¬ c.port = f := by
      intro hcf
      rcases (hi.file_eq_iff hp (hpf ▸ hf)).mp hcf.symm with h | h
      · rw [hcl] at h
        cases h
      · exact h0 (hpf.trans h)
    -- the line of a file that the send is not for
    have hl := hd'.line f
    rw [hs, returns_own, if_neg hne, List.append_nil] at hl
    have hl : s.line f ++ c.data.take m = s.line f := by
      have hw := writes_line s f (c.data.take m) f
      rw [if_pos rfl] at hw
      exact hw.symm.trans (hl.trans (hd.line f).symm)
    have hlen := congrArg List.length hl
    rw [List.length_append, List.length_take] at hlen
    have hn : m ≤ c.data.length := hn
    omega

theorem step_breaks (hi : Inv s) (hd : Delivers s) (hok : ¬ Ok s e) (he : step s e = some s') : ¬ Delivers s' := by
  obtain ⟨t, n, rfl⟩ : ∃ t n, e = .next t n := by
    cases e with
    | next t n => exact ⟨t, n, rfl⟩
    | _ => exact absurd trivial hok
  obtain ⟨c, p, hc, hp, hn, rfl⟩ := (next_iff (not_uaf he)).mp he
  refine overtaken hi hd hc hp hn fun hfine => hok fun c' p' hc' hp' => ?_
  rw [hc] at hc'
  cases hc'
  rw [hp] at hp'
  cases hp'
  exact hfine

theorem reach_delivers {k : Nat} (hr : Reach step Ok (init k) s) : Delivers s := by
  have hs := hr.invariant (P := fun s => Inv s ∧ Delivers s) ⟨init_inv k, rfl, fun _ => rfl⟩
    fun _ _ _ hi hok he => ⟨step_inv hi.1 he, step_delivers hi.1 hi.2 hok he⟩
  exact hs.2

/-- In every run of any number of serial_t's, sends and threads. -/
theorem lines_iff (k : Nat) (es : List Event) :
    Always step Delivers (init k) es ↔ Steps step Ok (init k) es :=
  always_iff (fun _ hr => reach_delivers hr)
    (fun _ _ _ hr he hok => step_breaks (reach_inv hr) (reach_delivers hr) hok he) es

/-! ## A close among sends -/

/-- No send begins on `h`'s serial_t; those inside go on as they like, those on others as `Ok` asks. -/
def Elsewhere (h : Nat) (s : St) : Event → Prop
  | .send _ handle _ => handle ≠ some h
  | .next t n => Ok s (.next t n) ∨ ∃ c, s.call t = some c ∧ c.port = h
  | _ => True

/-- It has its descriptor and nothing to write, or descriptor 0. -/
def Call.harmless (c : Call) : Prop := c.fd = some 0 ∨ (c.fd ≠ none ∧ c.data = [])

def Harmless (h : Nat) (s : St) : Prop := ∀ t c, s.call t = some c → c.port = h → c.harmless

theorem serialSend_harmless (hh : Harmless h s) (hc : s.call t = some c) : Harmless h (serialSend s t c p n) := by
  obtain ⟨-, -, hs⟩ | ⟨hfd, -, hs⟩ | ⟨_, -, -, hs⟩ | ⟨_, f, m, -, -, -, hs⟩ := serialSend_cases s t c p n
  · rw [hs]
    exact hh
  · rw [hs]
    intro j d hd hdh
    obtain ⟨-, hd⟩ | hd := call_update hd
    · obtain rfl := Option.some.inj hd
      rcases hh t c hc hdh with h | ⟨h, -⟩
      · rw [hfd] at h
        cases h
      · exact absurd hfd h
    · exact hh j d hd hdh
  · rw [hs]
    exact fun j d hd => hh j d (returns_call hd)
  · rw [hs]
    intro j d hd
    have hd := returns_call hd
    exact hh j d hd

theorem step_harmless (hh : Harmless h s) (hok : Elsewhere h s e) (he : step s e = some s') : Harmless h s' := by
  obtain rfl | rfl | ⟨_, _, _, _, -, rfl⟩ | ⟨_, _, -, -, -, rfl⟩ | ⟨_, _, -, -, -, rfl⟩ | ⟨_, _, -, -, rfl⟩ |
    ⟨t, j, data, p, rfl, -, -, rfl⟩ | ⟨t, n, c, p, -, hc, -, -, rfl⟩ := step_cases he
  · exact hh
  · exact hh
  · exact hh
  · exact hh
  · exact hh
  · exact hh
  · intro t' d hd hdh
    obtain ⟨-, hd⟩ | hd := call_update hd
    · obtain rfl := Option.some.inj hd
      exact absurd (congrArg some hdh) hok
    · exact hh t' d hd hdh
  · exact serialSend_harmless hh hc

theorem harmless_ok (hh : Harmless h s) (hok : Elsewhere h s e) (he : step s e = some s') : Ok s e := by
  cases e with
  | next t n =>
    rcases hok with hok | ⟨c, hc, hch⟩
    · exact hok
    · obtain ⟨d, q', hd, -, hn, -⟩ := (next_iff (not_uaf he)).mp he
      rw [hc] at hd
      cases hd
      intro d q hd hq
      rw [hc] at hd
      cases hd
      refine ⟨fun hfd => ?_, fun fd hfd _ => ?_⟩
      · rcases hh t c hc hch with h0 | ⟨h0, -⟩
        · rw [hfd] at h0
          cases h0
        · exact absurd hfd h0
      · rcases hh t c hc hch with h0 | ⟨-, hdata⟩
        · rw [hfd] at h0
          exact .inl (Option.some.inj h0)
        · rw [hdata] at hn
          exact .inr (.inr (Nat.le_zero.mp hn))
  | _ => trivial

variable {s1 u : St}

/-- The number's turn comes, however many free ones are below it. -/
theorem given_again (hr : Reach step (Elsewhere h) s1 u) (hu : u.uaf = false) (hf : u.table.file fd = none) :
    ∃ v, Reach step (Elsewhere h) s1 v ∧ v.call = u.call ∧ v.ports = u.ports ∧ v.table.file fd ≠ none := by
  induction hm : fd - u.table.lowest using Nat.strongRecOn generalizing u with
  | ind m ih =>
    have hv : Reach step (Elsewhere h) s1 (opened u) := .step .opens hr trivial (by simp [step, hu])
    by_cases hl : u.table.lowest = fd
    · refine ⟨opened u, hv, rfl, rfl, ?_⟩
      show (u.table.opened u.opens).file fd ≠ none
      rw [Table.file_opened, if_pos hl.symm]
      exact Option.some_ne_none _
    · have hle := Table.lowest_le hf
      have hlt : u.table.lowest < (opened u).table.lowest := Table.lowest_lt u.table u.opens
      obtain ⟨v, hv, hc, hp, hv'⟩ := ih (fd - (opened u).table.lowest) (by omega) hv hu (Table.free_opened hf hl) rfl
      exact ⟨v, hv, hc, hp, hv'⟩

/-- A send that can read a freed serial_t, or write to a number that was given away, puts an end to `Delivers`. -/
theorem goes_wrong (hi : Inv s1) (hall : ∀ s', Reach step (Elsewhere c.port) s1 s' → Delivers s')
    (hu : Reach step (Elsewhere c.port) s1 u) (hc : u.call t = some c) (hp : u.ports c.port = some p)
    (hn : n.getD 0 ≤ c.data.length) (hno : ¬ Fine u c p n) : False := by
  have hiu : Inv u := hu.invariant hi fun _ _ _ hi _ he => step_inv hi he
  have hd := hall u hu
  have hs : step u (.next t n) = some (serialSend u t c p n) := (next_iff hd.uaf).mpr ⟨c, p, hc, hp, hn, rfl⟩
  exact overtaken hiu hd hc hp hn hno (hall _ (.step (.next t n) hu (.inr ⟨c, hc, rfl⟩) hs))

theorem close_cases (hs : step s (.closeHandle h) = some s1) : ∃ p, s.ports h = some p ∧ s1 = closeHandle s h p := by
  unfold step at hs
  split at hs
  · cases hs
  · obtain ⟨p, hp, hs⟩ := Option.bind_eq_some_iff.mp hs
    split at hs
    · exact ⟨p, hp, (Option.some.inj hs).symm⟩
    · cases hs

/-- Of a close in any run: what may come after it, for as long as nobody begins a send on the freed serial_t. -/
theorem close_iff (k : Nat) (s s1 : St) (h : Nat) (hr : Reach step Ok (init k) s)
    (hs : step s (.closeHandle h) = some s1) :
    (∀ s', Reach step (Elsewhere h) s1 s' → Delivers s') ↔ Harmless h s := by
  have hu := not_uaf hs
  have hr1 : Reach step Ok (init k) s1 := .step (.closeHandle h) hr trivial hs
  constructor
  · obtain ⟨p, hp, rfl⟩ := close_cases hs
    intro hall t c hc hch
    subst hch
    have hp1 : (closeHandle s c.port p).ports c.port = some { p with closed := true } := Function.update_self ..
    refine Classical.byContradiction fun hno => ?_
    obtain ⟨h0, hdata⟩ := not_or.mp hno
    cases hfd : c.fd with
    | none =>
      -- the free is still to come, and then the read
      have hf : step (closeHandle s c.port p) .free =
          some (freeHandle (closeHandle s c.port p) c.port { p with closed := true }) := by
        simp [step, hu, closeHandle]
      refine goes_wrong (n := none) (reach_inv hr1) hall (.step .free .init trivial hf) hc (Function.update_self ..)
        (Nat.zero_le _) fun hfine => ?_
      cases hfine.read hfd
    | some fd =>
      have hlen : (some 1).getD 0 ≤ c.data.length :=
        List.length_pos_iff.mpr fun h => hdata ⟨by simp [hfd], h⟩
      -- until then the number may have to be given to another file
      obtain ⟨v, hv, hvc, hvp, hvf⟩ : ∃ v, Reach step (Elsewhere c.port) (closeHandle s c.port p) v ∧
          v.call = s.call ∧ v.ports = (closeHandle s c.port p).ports ∧ v.table.file fd ≠ none := by
        by_cases hf : (closeHandle s c.port p).table.file fd = none
        · exact given_again .init hu hf
        · exact ⟨_, .init, rfl, rfl, hf⟩
      refine goes_wrong (reach_inv hr1) hall hv (hvc ▸ hc) (hvp ▸ hp1) hlen fun hfine => ?_
      rcases hfine.write fd hfd rfl with h | h | h
      · exact h0 (h ▸ hfd)
      · exact hvf h
      · cases h
  · intro hh s' hs'
    have hh1 : Harmless h s1 := by
      obtain ⟨p, -, rfl⟩ := close_cases hs
      exact hh
    have := hs'.invariant (P := fun u => Reach step Ok (init k) u ∧ Harmless h u) ⟨hr1, hh1⟩
      fun u e u' hi hok he => ⟨.step e hi.1 (harmless_ok hi.2 hok he) he, step_harmless hi.2 hok he⟩
    exact reach_delivers this.1

/-- Thread 1 has read descriptor 3 and has a byte to write when its serial_t is closed. -/
theorem close_overtakes : ∃ s s1, s.call 1 = some ⟨3, [65], some 3⟩ ∧ step s (.closeHandle 3) = some s1 ∧
    ¬ ∀ s', Reach step (Elsewhere 3) s1 s' → Delivers s' := by
  obtain ⟨s, hr, hc, s1, hs⟩ : ∃ s, Reach step Ok (init 3) s ∧ s.call 1 = some ⟨3, [65], some 3⟩ ∧
      ∃ s1, step s (.closeHandle 3) = some s1 := by
    refine ⟨_, .step (.next 1 none) (.step (.send 1 (some 3) [65])
      (.step (.serialRun true true true true) .init trivial rfl) trivial rfl) ?_ rfl, rfl, _, rfl⟩
    intro c p hc hp
    cases hc
    cases hp
    exact ⟨fun _ => rfl, fun fd h => by cases h⟩
  refine ⟨s, s1, hc, hs, fun hall => ?_⟩
  rcases (close_iff 3 s s1 3 hr hs).mp hall 1 _ hc rfl with h | ⟨-, h⟩
  · exact absurd h (by decide)
  · exact absurd h (by decide)

end UvWrapper.Serial.SerialSend

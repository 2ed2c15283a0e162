/-
The key buffer of the keyboard driver, `src/kernel/drivers/pc/ps2_core.c`.

The interrupt puts keys in and the main program takes them out, without a lock. A push runs
to its end, but it may come between any two accesses of the main program, so `queue_pop` and
`queue_peek` are cut into their single loads and stores (`Pc`). C leaves open which of the two
variables of a comparison is read first; both orders are in the model.

The log has what can be seen from outside: the keys taken into the buffer, those handed out,
and those that have been looked at since. Only `queue_pop` writes `key_tail` and only a push
writes `key_head`. So what the main program has read of `key_head` may be old, but never ahead
of the buffer, and what it has read of `key_tail` is still so.
-/
import Mathlib.Data.List.Infix
import Mathlib.Logic.Function.Basic

set_option autoImplicit false

namespace System1.Ps2

open Function List

/-! ## The buffer -/

structure Queue where
  key_buffer : Nat → Int
  key_head : UInt8
  key_tail : UInt8

/-- `(uint8_t)((i + 1u) & (KEY_BUFFER_SIZE - 1u))` -/
def nextIndex (i : UInt8) : UInt8 := (i + 1) &&& 63

def queue_push (q : Queue) (key : Int) : Queue :=
  if nextIndex q.key_head = q.key_tail then q
  else { q with
    key_buffer := update q.key_buffer q.key_head.toNat key
    key_head := nextIndex q.key_head }

/-! ## The main program -/

/-- Where the main program is in `queue_pop` (`pop`) or `queue_peek`, and what it has read. -/
inductive Pc where
  | idle
  | called (pop : Bool)
  | readHead (pop : Bool) (head : UInt8)
  | readTail (pop : Bool) (tail : UInt8)
  | notEmpty (pop : Bool)
  | readIndex (pop : Bool) (tail : UInt8)
  | readKey (key : Int)
  | readAgain (key : Int) (tail : UInt8)

/-- What can be seen. A function that returns `KEY_NONE` because the buffer is empty
returns `none`. -/
inductive Seen where
  | accepted (key : Int)
  | dropped (key : Int)
  | popped (key : Option Int)
  | peeked (key : Option Int)

structure State where
  queue : Queue
  pc : Pc

/-- A push by the interrupt, a call by the main program, or its next access; where it has two
variables to compare, `tailFirst` says which one is next. -/
inductive Event where
  | push (key : Int)
  | call (pop : Bool)
  | access (tailFirst : Bool)

/-- What is returned when a comparison finds the buffer empty. -/
def emptyReturn (pop : Bool) : Seen := if pop then .popped none else .peeked none

/-- One access of the main program. -/
def access (q : Queue) (tailFirst : Bool) : Pc → State × Option Seen
  | .idle => (⟨q, .idle⟩, none)
  | .called pop =>
    (⟨q, if tailFirst then .readTail pop q.key_tail else .readHead pop q.key_head⟩, none)
  | .readHead pop head =>
    if head = q.key_tail then (⟨q, .idle⟩, some (emptyReturn pop)) else (⟨q, .notEmpty pop⟩, none)
  | .readTail pop tail =>
    if q.key_head = tail then (⟨q, .idle⟩, some (emptyReturn pop)) else (⟨q, .notEmpty pop⟩, none)
  | .notEmpty pop => (⟨q, .readIndex pop q.key_tail⟩, none)
  | .readIndex true tail => (⟨q, .readKey (q.key_buffer tail.toNat)⟩, none)
  | .readIndex false tail => (⟨q, .idle⟩, some (.peeked (some (q.key_buffer tail.toNat))))
  | .readKey key => (⟨q, .readAgain key q.key_tail⟩, none)
  | .readAgain key tail =>
    (⟨{ q with key_tail := nextIndex tail }, .idle⟩, some (.popped (some key)))

def State.step (s : State) : Event → State × Option Seen
  | .push key =>
    (⟨queue_push s.queue key, s.pc⟩, some
      (if nextIndex s.queue.key_head = s.queue.key_tail then .dropped key else .accepted key))
  | .call pop =>
    match s.pc with
    | .idle => (⟨s.queue, .called pop⟩, none)
    | _ => (s, none)
  | .access tailFirst => access s.queue tailFirst s.pc

/-! ## The log -/

/-- The keys taken into the buffer and those handed out, in order, and what `queue_peek` has
returned since the last `queue_pop`. -/
structure Log where
  accepted : List Int
  popped : List Int
  peeked : List Int

def Log.note (log : Log) : Option Seen → Log
  | some (.accepted key) => { log with accepted := log.accepted ++ [key] }
  | some (.popped key) => { log with popped := log.popped ++ key.toList, peeked := [] }
  | some (.peeked key) => { log with peeked := log.peeked ++ key.toList }
  | some (.dropped _) | none => log

/-- The states of all interleavings after `ps2_init`, with their logs. -/
inductive Reachable : State → Log → Prop
  | init (key_buffer : Nat → Int) : Reachable ⟨⟨key_buffer, 0, 0⟩, .idle⟩ ⟨[], [], []⟩
  | step {s : State} {log : Log} (h : Reachable s log) (e : Event) :
      Reachable (s.step e).1 (log.note (s.step e).2)

/-- What may be seen next. -/
def Seen.Right (log : Log) : Seen → Prop
  | .dropped _ => log.accepted.length = log.popped.length + 63
  | .popped key => log.popped ++ key.toList <+: log.accepted ∧ ∀ k ∈ log.peeked, key = some k
  | .accepted _ | .peeked _ => True

/-! ## The invariant -/

/-- What the main program has read is in step with the keys that are not handed out yet. -/
def Pc.Ok (tail : UInt8) (peeked unread : List Int) : Pc → Prop
  | .idle | .called _ => True
  | .readHead _ head => (head = tail → peeked = []) ∧ (head ≠ tail → unread ≠ [])
  | .readTail _ t => t = tail
  | .notEmpty _ => unread ≠ []
  | .readIndex _ t => t = tail ∧ unread ≠ []
  | .readKey key => unread.head? = some key
  | .readAgain key t => t = tail ∧ unread.head? = some key

structure Inv (s : State) (log : Log) (unread : List Int) : Prop where
  split : log.accepted = log.popped ++ unread
  bound : unread.length ≤ 63
  head : s.queue.key_head.toNat = (log.popped.length + unread.length) % 64
  tail : s.queue.key_tail.toNat = log.popped.length % 64
  cells : ∀ i, (hi : i < unread.length) →
    s.queue.key_buffer ((log.popped.length + i) % 64) = unread[i]
  peeked : ∀ k ∈ log.peeked, unread.head? = some k
  pc : s.pc.Ok s.queue.key_tail log.peeked unread

theorem head?_kept {unread : List Int} {k : Int} (h : unread.head? = some k) (key : Int) :
    (unread ++ [key]).head? = some k := by
  rw [head?_append, h, Option.some_or]

/-- A key more in the queue does not disturb the reader. -/
theorem Pc.Ok.append {tail : UInt8} {peeked unread : List Int} {pc : Pc}
    (h : pc.Ok tail peeked unread) (key : Int) : pc.Ok tail peeked (unread ++ [key]) := by
  have hne : unread ++ [key] ≠ [] := append_ne_nil_of_right_ne_nil _ (cons_ne_nil _ _)
  cases pc with
  | idle | called | readTail => exact h
  | readHead => exact ⟨h.1, fun _ => hne⟩
  | notEmpty => exact hne
  | readIndex => exact ⟨h.1, hne⟩
  | readKey => exact head?_kept h key
  | readAgain => exact ⟨h.1, head?_kept h.2 key⟩

theorem nextIndex_toNat (i : UInt8) : (nextIndex i).toNat = (i.toNat + 1) % 64 := by
  have hmask : (i + 1).toNat &&& 63 = (i + 1).toNat % 2 ^ 6 := Nat.and_two_pow_sub_one_eq_mod _ 6
  grind [nextIndex, UInt8.toNat_and, UInt8.toNat_add]

section

variable {s : State} {log : Log} {unread : List Int} (h : Inv s log unread)

include h

theorem Inv.empty_iff : s.queue.key_head = s.queue.key_tail ↔ unread = [] := by
  have := h.bound
  rw [← UInt8.toNat_inj, h.head, h.tail, ← length_eq_zero_iff]
  omega

theorem Inv.full_iff :
    nextIndex s.queue.key_head = s.queue.key_tail ↔ unread.length = 63 := by
  have := h.bound
  rw [← UInt8.toNat_inj, nextIndex_toNat, h.head, h.tail]
  omega

theorem Inv.front (hne : unread ≠ []) :
    unread.head? = some (s.queue.key_buffer s.queue.key_tail.toNat) := by
  obtain ⟨k, rest, rfl⟩ := exists_cons_of_ne_nil hne
  have := h.cells 0 (by simp)
  rw [Nat.add_zero, ← h.tail] at this
  rw [this]
  rfl

theorem Inv.nothing_peeked (hempty : unread = []) : log.peeked = [] := by
  refine eq_nil_iff_forall_not_mem.mpr fun k hk => ?_
  have := h.peeked k hk
  rw [hempty] at this
  cases this

/-! ## One step -/

/-- The main program goes on and the buffer stays as it is. -/
theorem Inv.goes (pc : Pc) (hpc : pc.Ok s.queue.key_tail log.peeked unread) :
    Inv ⟨s.queue, pc⟩ log unread := { h with pc := hpc }

/-- The interrupt appends a key or drops it. -/
theorem Inv.push (key : Int) : ∃ unread',
    Inv (s.step (.push key)).1 (log.note (s.step (.push key)).2) unread' := by
  unfold State.step queue_push
  dsimp only
  split
  · exact ⟨unread, h⟩
  next hroom =>
  have hbound := h.bound
  have hlen : unread.length ≠ 63 := mt h.full_iff.mpr hroom
  refine ⟨unread ++ [key], ?_, ?_, ?_, h.tail, ?_, fun k hk => head?_kept (h.peeked k hk) key,
    h.pc.append key⟩
  · simp [Log.note, h.split]
  · simp only [length_append, length_singleton]
    omega
  · simp only [nextIndex_toNat, h.head, length_append, length_singleton, Log.note]
    omega
  · intro i hi
    simp only [Log.note, update_apply, h.head]
    rw [length_append, length_singleton] at hi
    by_cases hlast : i = unread.length
    · simp [hlast]
    · rw [if_neg (by omega), getElem_append_left (by omega)]
      exact h.cells i (by omega)

/-- A comparison has found the buffer empty. -/
theorem Inv.returns_empty (hpeeked : log.peeked = []) (pop : Bool) :
    Inv ⟨s.queue, .idle⟩ (log.note (some (emptyReturn pop))) unread ∧
      (emptyReturn pop).Right log := by
  have hlog : log.note (some (emptyReturn pop)) = log := by
    obtain ⟨accepted, popped, peeked⟩ := log
    obtain rfl : peeked = [] := hpeeked
    cases pop <;> simp [emptyReturn, Log.note]
  rw [hlog]
  refine ⟨h.goes .idle trivial, ?_⟩
  cases pop with
  | false => trivial
  | true => exact ⟨by simp [h.split], by simp [hpeeked]⟩

end

/-- One access of the reader, by where it stands. -/
theorem access_inv {q : Queue} {pc : Pc} {log : Log} {unread : List Int}
    (h : Inv ⟨q, pc⟩ log unread) (tailFirst : Bool) :
    (∃ unread', Inv (access q tailFirst pc).1 (log.note (access q tailFirst pc).2) unread') ∧
      ∀ o, (access q tailFirst pc).2 = some o → o.Right log := by
  have hpc : pc.Ok q.key_tail log.peeked unread := h.pc
  have hnone : ∀ {pc' : Pc}, pc'.Ok q.key_tail log.peeked unread →
      (∃ unread', Inv ⟨q, pc'⟩ (log.note none) unread') ∧
        ∀ o, (none : Option Seen) = some o → o.Right log :=
    fun hok => ⟨⟨unread, h.goes _ hok⟩, nofun⟩
  have hempty : log.peeked = [] → ∀ pop,
      (∃ unread', Inv ⟨q, .idle⟩ (log.note (some (emptyReturn pop))) unread') ∧
        ∀ o, some (emptyReturn pop) = some o → o.Right log := by
    intro hpeeked pop
    obtain ⟨hinv, hright⟩ := h.returns_empty hpeeked pop
    exact ⟨⟨unread, hinv⟩, fun o ho => Option.some.inj ho ▸ hright⟩
  cases pc with
  | idle => exact hnone trivial
  | called pop =>
    refine hnone ?_
    cases tailFirst with
    | true => rfl
    | false => exact ⟨fun heq => h.nothing_peeked (h.empty_iff.mp heq), mt h.empty_iff.mpr⟩
  | readHead pop head =>
    rw [access]
    split
    · next heq => exact hempty (hpc.1 heq) pop
    · next hne => exact hnone (hpc.2 hne)
  | readTail pop tail =>
    rw [access]
    split
    · next heq => exact hempty (h.nothing_peeked (h.empty_iff.mp (heq.trans hpc))) pop
    · next hne => exact hnone (mt h.empty_iff.mpr fun heq => hne (heq.trans hpc.symm))
  | notEmpty pop => exact hnone ⟨rfl, hpc⟩
  | readIndex pop tail =>
    obtain ⟨rfl, hne⟩ := hpc
    cases pop with
    | true => exact hnone (h.front hne)
    | false =>
      refine ⟨⟨unread, { h.goes .idle trivial with peeked := fun k hk => ?_ }⟩, ?_⟩
      · obtain hk | hk := mem_append.mp hk
        · exact h.peeked k hk
        · rw [h.front hne, mem_singleton.mp hk]
      · rintro _ ⟨⟩
        trivial
  | readKey key => exact hnone ⟨rfl, hpc⟩
  | readAgain key tail =>
    obtain ⟨rfl, hkey⟩ := hpc
    obtain ⟨rest, rfl⟩ : ∃ rest, unread = key :: rest := head?_eq_some_iff.mp hkey
    have hbound := h.bound
    have hsplit : log.accepted = log.popped ++ [key] ++ rest := by simp [h.split]
    rw [length_cons] at hbound
    refine ⟨⟨rest, hsplit, by omega, ?_, ?_, fun i hi => ?_, nofun, trivial⟩, ?_⟩
    · have := h.head
      simp only [length_cons, length_append, Log.note, access, Option.toList_some,
        length_nil] at this ⊢
      rw [this]
      omega
    · have := h.tail
      simp only [nextIndex_toNat, length_append, Log.note, access, Option.toList_some, length_cons,
        length_nil] at this ⊢
      omega
    · have := h.cells (i + 1) (by simpa using hi)
      simpa [Log.note, access, Nat.add_assoc, Nat.add_comm 1 i] using this
    · rintro _ ⟨⟩
      refine ⟨⟨rest, hsplit.symm⟩, fun k hk => ?_⟩
      exact h.peeked k hk

/-- Whichever of the two moves, the queue holds the unread keys in order. -/
theorem Inv.step {s : State} {log : Log} {unread : List Int} (h : Inv s log unread) (e : Event) :
    (∃ unread', Inv (s.step e).1 (log.note (s.step e).2) unread') ∧
      ∀ o, (s.step e).2 = some o → o.Right log := by
  cases e with
  | push key =>
    refine ⟨h.push key, ?_⟩
    rintro _ ⟨⟩
    split
    · next hfull =>
      show log.accepted.length = log.popped.length + 63
      rw [h.split, length_append, h.full_iff.mp hfull]
    · trivial
  | call pop =>
    obtain ⟨q, pc⟩ := s
    cases pc with
    | idle => exact ⟨⟨unread, h.goes (.called pop) trivial⟩, nofun⟩
    | _ => exact ⟨⟨unread, h⟩, nofun⟩
  | access tailFirst => exact access_inv h tailFirst

end System1.Ps2

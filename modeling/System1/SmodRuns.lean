/-
Registration is transactional.

The variables of `module_core.c` are compared with a registry that has a staging area
(`Lib.Staged`): a callback is active or staged when its pointer is not null, a table when
its flag is set and, for an active one, its core layer points to it. A call of a
registration function while an entry runs is refused or takes an offer of that registry,
and outside of an entry it is refused, so what the `init` callbacks ask for changes
nothing. The end of an activation is then a rollback or a commit.

The one thing that could come between a staged table and an active one is the check that
the core layer makes and whose answer `smod_activate` ignores. It is the check that the
registration has already made, so `Good` carries it from the one to the other.
-/
import System1.Smod
import System1.Lib.Staged

set_option autoImplicit false

namespace System1.Smod

open System1.Lib

/-! ## The registry that the variables hold -/

inductive Service where
  | uart
  | rtc
  | display
  | input
  | irq_chip
  | floppy
  deriving DecidableEq, Repr

/-- The callbacks of a service. -/
inductive Ops where
  | uart (write_byte : Fn)
  | rtc (read_time : Fn)
  | display (ops : DisplayOps)
  | input (ops : InputOps)
  | irq_chip (ops : IrqChipOps)
  | floppy (ops : FloppyOps)
  deriving DecidableEq, Repr

/-- The service a call is for and the callbacks it offers, unless it passes a null
pointer to a table. -/
def Register.offer : Register → Option (Service × Ops)
  | .uart f => some (.uart, .uart f)
  | .rtc f => some (.rtc, .rtc f)
  | .display ops => ops.map fun t => (.display, .display t)
  | .input ops => ops.map fun t => (.input, .input t)
  | .irq_chip ops => ops.map fun t => (.irq_chip, .irq_chip t)
  | .floppy ops => ops.map fun t => (.floppy, .floppy t)

/-- A function pointer, as the C code tests it. -/
def fnOf (f : Fn) : Option Fn := if f = 0 then none else some f

def Registry.active {α : Type} (r : Registry α) : Option α :=
  if r.has = true ∧ r.driver = .module then some r.loaded else none

def Registry.staged {α : Type} (r : Registry α) : Option α :=
  if r.pending_has = true then some r.pending else none

/-- The callbacks that are active, per service. -/
def State.active (s : State) : Service → Option Ops
  | .uart => (fnOf s.uart.active).map .uart
  | .rtc => (fnOf s.rtc.active).map .rtc
  | .display => s.display.active.map .display
  | .input => s.input.active.map .input
  | .irq_chip => s.irq_chip.active.map .irq_chip
  | .floppy => s.floppy.active.map .floppy

/-- The callbacks that are staged, per service. -/
def State.staged (s : State) : Service → Option Ops
  | .uart => (fnOf s.uart.pending).map .uart
  | .rtc => (fnOf s.rtc.pending).map .rtc
  | .display => s.display.staged.map .display
  | .input => s.input.staged.map .input
  | .irq_chip => s.irq_chip.staged.map .irq_chip
  | .floppy => s.floppy.staged.map .floppy

def State.abs (s : State) : Staged Service Ops := ⟨s.active, s.staged⟩

@[simp] theorem abs_active (s : State) : s.abs.active = s.active := rfl
@[simp] theorem abs_staged (s : State) : s.abs.staged = s.staged := rfl

/-! ## One service -/

section

variable {α : Type} {complete : α → Bool}

/-- A staged table has passed its check, and the core layer points to the table of a
service that has one. -/
structure Registry.Good (complete : α → Bool) (r : Registry α) : Prop where
  staged : r.pending_has = true → complete r.pending = true
  driver : r.has = true → r.driver = .module

theorem Registry.Good.active_none {r : Registry α} (h : r.Good complete) :
    r.active = none ↔ r.has = false := by
  unfold Registry.active
  cases hhas : r.has with
  | false => simp
  | true => simp [h.driver hhas]

theorem Registry.staged_none {r : Registry α} : r.staged = none ↔ r.pending_has = false := by
  unfold Registry.staged
  cases r.pending_has <;> simp

/-- A callback is refused, or was not null and is staged where nothing was. -/
theorem Hook.register_cases (in_entry : Bool) (f : Fn) (h : Hook) :
    h.register in_entry f = (false, h) ∨
    (in_entry = true ∧ f ≠ 0 ∧ h.active = 0 ∧ h.pending = 0 ∧
      h.register in_entry f = (true, { h with pending := f })) := by
  unfold Hook.register
  grind

/-- A table is refused, or was complete and is staged where nothing was. -/
theorem Registry.Good.register_cases {r : Registry α} (h : r.Good complete) (in_entry : Bool)
    (ops : Option α) :
    r.register complete in_entry ops = (false, r) ∨
    ∃ t, ops = some t ∧ in_entry = true ∧ (r.active = none ∧ r.staged = none) ∧
      ({ r with pending := t, pending_has := true } : Registry α).Good complete ∧
      ({ r with pending := t, pending_has := true } : Registry α).active = r.active ∧
      ({ r with pending := t, pending_has := true } : Registry α).staged = some t ∧
      r.register complete in_entry ops = (true, { r with pending := t, pending_has := true }) := by
  unfold Registry.register
  cases ops with
  | none => exact .inl rfl
  | some t =>
    dsimp only
    split
    · exact .inl rfl
    next hc =>
    simp only [not_or, Bool.not_eq_false, Bool.not_eq_true] at hc
    exact .inr ⟨t, rfl, hc.1, ⟨h.active_none.mpr hc.2.2.1, Registry.staged_none.mpr hc.2.2.2⟩,
      ⟨fun _ => hc.2.1, h.driver⟩, rfl, rfl, rfl⟩

theorem Hook.commit_active (h : Hook) :
    fnOf h.commit.active = (fnOf h.pending).or (fnOf h.active) := by
  unfold Hook.commit fnOf
  by_cases hp : h.pending = 0 <;> simp [hp]

section

variable {r : Registry α} (h : r.Good complete)

include h

/-- The core layer accepts the staged table, which has passed the same check. -/
theorem Registry.Good.commit_active :
    (r.commit complete).active = r.staged.or r.active := by
  unfold Registry.commit Registry.staged
  cases hp : r.pending_has with
  | false => simp
  | true => simp [Registry.active, h.staged hp]

theorem Registry.Good.commit :
    (r.commit complete).Good complete := by
  unfold Registry.commit
  cases hp : r.pending_has with
  | false => simpa using h
  | true => exact ⟨fun _ => h.staged hp, fun _ => by simp [h.staged hp]⟩

theorem Registry.Good.clear : r.clear.Good complete :=
  ⟨fun hp => (by cases hp), h.driver⟩

end

theorem Registry.clear_active (r : Registry α) : r.clear.active = r.active := rfl

theorem Registry.clear_staged (r : Registry α) : r.clear.staged = none := rfl

end

/-! ## Registering -/

/-- The invariant of the variables. -/
structure Good (s : State) : Prop where
  display : s.display.Good DisplayOps.complete
  input : s.input.Good InputOps.complete
  irq_chip : s.irq_chip.Good IrqChipOps.complete
  floppy : s.floppy.Good FloppyOps.complete

/-- The variables that are not part of a service. -/
structure SameRest (s s' : State) : Prop where
  in_entry : s'.smod_in_entry = s.smod_in_entry
  boot_used : s'.smod_boot_used = s.smod_boot_used
  loaded_count : s'.smod_loaded_count = s.smod_loaded_count

variable {s s' : State}

theorem SameRest.trans {s'' : State} (h : SameRest s s') (h' : SameRest s' s'') :
    SameRest s s'' :=
  ⟨h'.in_entry.trans h.in_entry, h'.boot_used.trans h.boot_used,
    h'.loaded_count.trans h.loaded_count⟩

/-- A call that is taken stages what it offers under a key that was open. -/
structure Takes (s : State) (c : Register) (s' : State) : Prop where
  offered : ∃ k v, c.offer = some (k, v) ∧ s.abs.Open k ∧ s'.abs = s.abs.stage k v
  good : Good s'
  rest : SameRest s s'

/-- Staging one offer, in the terms of the variables. -/
theorem Takes.of {c : Register} {k : Service} {v : Ops} (hoffer : c.offer = some (k, v))
    (hopen : s.active k = none ∧ s.staged k = none) (hactive : s'.active = s.active)
    (hstaged : s'.staged = Function.update s.staged k (some v)) (hgood : Good s')
    (hrest : SameRest s s') : Takes s c s' :=
  ⟨⟨k, v, hoffer, hopen, Staged.ext hactive hstaged⟩, hgood, hrest⟩

/-- A registration is refused and changes nothing, or is taken, which needs an entry. -/
theorem smod_register_cases (h : Good s) (c : Register) :
    smod_register s c = (false, s) ∨
    (s.smod_in_entry = true ∧ (smod_register s c).1 = true ∧ Takes s c (smod_register s c).2) := by
  -- the two kinds of services, by what their shared bodies do
  cases c with
  | uart f =>
    simp only [smod_register, smod_register_uart]
    rcases Hook.register_cases s.smod_in_entry f s.uart with heq | ⟨hin, hf, ha, hp, heq⟩ <;>
      rw [heq]
    · exact .inl rfl
    refine .inr ⟨hin, rfl, .of (k := .uart) rfl ?_ ?_ ?_
      ⟨h.display, h.input, h.irq_chip, h.floppy⟩ ⟨rfl, rfl, rfl⟩⟩
    · simp [State.active, State.staged, fnOf, ha, hp]
    · funext k
      cases k <;> rfl
    · funext k
      cases k <;> simp [State.staged, fnOf, hf]
  | rtc f =>
    simp only [smod_register, smod_register_rtc]
    rcases Hook.register_cases s.smod_in_entry f s.rtc with heq | ⟨hin, hf, ha, hp, heq⟩ <;>
      rw [heq]
    · exact .inl rfl
    refine .inr ⟨hin, rfl, .of (k := .rtc) rfl ?_ ?_ ?_
      ⟨h.display, h.input, h.irq_chip, h.floppy⟩ ⟨rfl, rfl, rfl⟩⟩
    · simp [State.active, State.staged, fnOf, ha, hp]
    · funext k
      cases k <;> rfl
    · funext k
      cases k <;> simp [State.staged, fnOf, hf]
  | display ops =>
    simp only [smod_register, smod_register_display]
    rcases h.display.register_cases s.smod_in_entry ops
      with heq | ⟨t, rfl, hin, hopen, hgood, hact, hst, heq⟩ <;> rw [heq]
    · exact .inl rfl
    refine .inr ⟨hin, rfl, .of (k := .display) rfl ?_ ?_ ?_
      ⟨hgood, h.input, h.irq_chip, h.floppy⟩ ⟨rfl, rfl, rfl⟩⟩
    · simp [State.active, State.staged, hopen]
    · funext k
      cases k <;> simp [State.active, hact]
    · funext k
      cases k <;> simp [State.staged, hst]
  | input ops =>
    simp only [smod_register, smod_register_input]
    rcases h.input.register_cases s.smod_in_entry ops
      with heq | ⟨t, rfl, hin, hopen, hgood, hact, hst, heq⟩ <;> rw [heq]
    · exact .inl rfl
    refine .inr ⟨hin, rfl, .of (k := .input) rfl ?_ ?_ ?_
      ⟨h.display, hgood, h.irq_chip, h.floppy⟩ ⟨rfl, rfl, rfl⟩⟩
    · simp [State.active, State.staged, hopen]
    · funext k
      cases k <;> simp [State.active, hact]
    · funext k
      cases k <;> simp [State.staged, hst]
  | irq_chip ops =>
    simp only [smod_register, smod_register_irq_chip]
    rcases h.irq_chip.register_cases s.smod_in_entry ops
      with heq | ⟨t, rfl, hin, hopen, hgood, hact, hst, heq⟩ <;> rw [heq]
    · exact .inl rfl
    refine .inr ⟨hin, rfl, .of (k := .irq_chip) rfl ?_ ?_ ?_
      ⟨h.display, h.input, hgood, h.floppy⟩ ⟨rfl, rfl, rfl⟩⟩
    · simp [State.active, State.staged, hopen]
    · funext k
      cases k <;> simp [State.active, hact]
    · funext k
      cases k <;> simp [State.staged, hst]
  | floppy ops =>
    simp only [smod_register, smod_register_floppy]
    rcases h.floppy.register_cases s.smod_in_entry ops
      with heq | ⟨t, rfl, hin, hopen, hgood, hact, hst, heq⟩ <;> rw [heq]
    · exact .inl rfl
    refine .inr ⟨hin, rfl, .of (k := .floppy) rfl ?_ ?_ ?_
      ⟨h.display, h.input, h.irq_chip, hgood⟩ ⟨rfl, rfl, rfl⟩⟩
    · simp [State.active, State.staged, hopen]
    · funext k
      cases k <;> simp [State.active, hact]
    · funext k
      cases k <;> simp [State.staged, hst]

/-- Outside of an entry every call is refused. -/
theorem runCalls_outside (h : Good s) (hin : s.smod_in_entry = false) (l : List Register) :
    runCalls s l = ([], s) := by
  induction l with
  | nil => rfl
  | cons c rest ih =>
    rcases smod_register_cases h c with heq | ⟨hin', -⟩
    · simp [runCalls, heq, ih]
    · rw [hin] at hin'
      cases hin'

/-- The calls that returned 0 are what is staged, and nothing else has changed. -/
structure Ran (s : State) (accepted : List Register) (s' : State) : Prop where
  active : s'.active = s.active
  staged : ∀ k v, s'.staged k = some v ↔
    s.staged k = some v ∨ ∃ c ∈ accepted, c.offer = some (k, v)
  fresh : s'.abs.Fresh
  good : Good s'
  rest : SameRest s s'

/-- The registrations of one module, one after the other. -/
theorem runCalls_ran (h : Good s) (hfresh : s.abs.Fresh) (l : List Register) :
    Ran s (runCalls s l).1 (runCalls s l).2 := by
  -- on the calls; each is refused or adds one offer to what is staged
  induction l generalizing s with
  | nil => exact ⟨rfl, fun k v => by simp [runCalls], hfresh, h, ⟨rfl, rfl, rfl⟩⟩
  | cons c rest ih =>
    rcases smod_register_cases h c with heq | ⟨-, htrue, htakes⟩
    · have hrest := ih h hfresh
      simpa [runCalls, heq] using hrest
    obtain ⟨⟨k, v, hoffer, hopen, habs⟩, hgood, hsame⟩ := htakes
    simp only [runCalls, htrue, if_true]
    generalize (smod_register s c).2 = s1 at habs hgood hsame
    have hrest := ih hgood (by rw [habs]; exact hfresh.stage hopen v)
    have hactive : s1.active = s.active := congrArg Staged.active habs
    have hstaged : ∀ k' v', s1.staged k' = some v' ↔ s.staged k' = some v' ∨ (k' = k ∧ v' = v) := by
      intro k' v'
      have hst := Staged.stage_staged hopen v k' v'
      rw [← habs] at hst
      exact hst
    refine ⟨hrest.active.trans hactive, fun k' v' => ?_, hrest.fresh, hrest.good,
      hsame.trans hrest.rest⟩
    rw [hrest.staged k' v', hstaged k' v']
    simp [hoffer, eq_comm, or_assoc]

/-! ## Activation -/

theorem clearPending_abs (s : State) : s.clearPending.abs = s.abs.rollback := by
  ext k v
  · cases k <;> rfl
  · cases k <;> simp [State.clearPending, Staged.rollback, State.staged, fnOf,
      Registry.clear_staged]

section

variable {s : State} (h : Good s)

include h

theorem Good.clearPending : Good s.clearPending :=
  ⟨h.display.clear, h.input.clear, h.irq_chip.clear, h.floppy.clear⟩

section

variable (hin : s.smod_in_entry = false) (entry : Entry)

include hin entry

/-- The tables with an `init` are committed like the others: its calls are refused. -/
theorem commitDisplay_eq :
    commitDisplay entry s = { s with display := s.display.commit DisplayOps.complete } := by
  unfold commitDisplay
  split
  · rw [runCalls_outside (s := { s with display := s.display.commit DisplayOps.complete })
      ⟨h.display.commit, h.input, h.irq_chip, h.floppy⟩ hin]
  next hp =>
  unfold Registry.commit
  rw [if_neg hp]

/-- An input driver is committed if it is complete. -/
theorem commitInput_eq :
    commitInput entry s = { s with input := s.input.commit InputOps.complete } := by
  unfold commitInput
  split
  · rw [runCalls_outside (s := { s with input := s.input.commit InputOps.complete })
      ⟨h.display, h.input.commit, h.irq_chip, h.floppy⟩ hin]
  next hp =>
  unfold Registry.commit
  rw [if_neg hp]

/-- The commit of an activation is a commit of the registry. -/
theorem commitAll_spec (from_arena : Bool) (aligned_size : Nat) :
    (commitAll entry from_arena aligned_size s).abs = s.abs.commit ∧
      Good (commitAll entry from_arena aligned_size s) ∧
      (commitAll entry from_arena aligned_size s).smod_in_entry = false := by
  unfold commitAll
  -- where the module lies is of no concern to the services
  have harena : ∃ n, (if from_arena then
      { s with smod_boot_used := u32 (s.smod_boot_used + aligned_size) } else s) =
        { s with smod_boot_used := n } := by
    cases from_arena with
    | false => exact ⟨_, rfl⟩
    | true => exact ⟨_, rfl⟩
  obtain ⟨n, hn⟩ := harena
  have hgood1 : Good { s with smod_boot_used := n, uart := s.uart.commit, rtc := s.rtc.commit } :=
    ⟨h.display, h.input, h.irq_chip, h.floppy⟩
  have hgood2 : Good { s with
      smod_boot_used := n, uart := s.uart.commit, rtc := s.rtc.commit
      display := s.display.commit DisplayOps.complete } :=
    ⟨h.display.commit, h.input, h.irq_chip, h.floppy⟩
  simp only [hn, commitDisplay_eq hgood1 hin, commitInput_eq hgood2 hin]
  refine ⟨?_, ⟨h.display.commit.clear, h.input.commit.clear, h.irq_chip.commit.clear,
    h.floppy.commit.clear⟩, hin⟩
  ext k v
  · cases k <;>
      simp [State.active, State.staged, Staged.commit, Hook.commit_active, Registry.clear_active,
        h.display.commit_active, h.input.commit_active, h.irq_chip.commit_active,
        h.floppy.commit_active, Option.map_or]
  · cases k <;>
      simp [State.staged, Staged.commit, Hook.commit, fnOf, Registry.clear_staged]

end

end

/-- Between activations: no entry runs and nothing is staged. -/
structure Settled (s : State) : Prop where
  in_entry : s.smod_in_entry = false
  staged : ∀ k, s.staged k = none
  good : Good s

/-- What an activation with this entry does, from the state before it. -/
structure Activated (s : State) (entry : Entry) (rc : Bool) (s' : State) : Prop where
  failed : entry.rc ≠ 0 → rc = false ∧ s'.active = s.active ∧
    s'.smod_boot_used = s.smod_boot_used ∧ s'.smod_loaded_count = s.smod_loaded_count
  succeeded : entry.rc = 0 → rc = true ∧ ∀ k v, s'.active k = some v ↔
    s.active k = some v ∨ ∃ c ∈ (runCalls (entered s) entry.calls).1, c.offer = some (k, v)
  kept : ∀ k v, s.active k = some v → s'.active k = some v
  settled : Settled s'

/-- An activation commits all that the module has registered or none of it. -/
theorem smod_activate_spec (h : Good s) (entry : Entry) (from_arena : Bool) (aligned_size : Nat) :
    Activated s entry (smod_activate s entry from_arena aligned_size).1
      (smod_activate s entry from_arena aligned_size).2 := by
  have hentered : (entered s).abs = s.abs.rollback := clearPending_abs s
  have hgood0 : Good (entered s) :=
    ⟨h.display.clear, h.input.clear, h.irq_chip.clear, h.floppy.clear⟩
  have hran := runCalls_ran hgood0
    (by rw [hentered]; exact Staged.fresh_of_none fun _ => rfl) entry.calls
  have hstaged0 : ∀ k, (entered s).staged k = none :=
    fun k => congrFun (congrArg Staged.staged hentered) k
  unfold smod_activate
  generalize hs1 : (runCalls (entered s) entry.calls).2 = s1 at hran
  have hactive : s1.active = s.active := hran.active
  have hfresh : ({ s1 with smod_in_entry := false } : State).abs.Fresh := hran.fresh
  have hgood : Good { s1 with smod_in_entry := false } :=
    ⟨hran.good.display, hran.good.input, hran.good.irq_chip, hran.good.floppy⟩
  by_cases hrc : entry.rc = 0
  · rw [if_neg (fun hne => hne hrc)]
    obtain ⟨habs, hgood', hin⟩ := commitAll_spec hgood rfl entry from_arena aligned_size
    generalize commitAll entry from_arena aligned_size { s1 with smod_in_entry := false } = s2
      at habs hgood' hin
    have hcommit : ∀ k, s2.active k =
        ({ s1 with smod_in_entry := false } : State).abs.commit.active k :=
      fun k => congrFun (congrArg Staged.active habs) k
    refine ⟨fun hne => absurd hrc hne, fun _ => ⟨rfl, fun k v => ?_⟩, fun k v hv => ?_,
      hin, fun k => congrFun (congrArg Staged.staged habs) k, hgood'⟩
    · rw [hcommit, hfresh.commit_active]
      show s1.active k = some v ∨ s1.staged k = some v ↔ _
      rw [hactive, hran.staged, hstaged0]
      simp
    · rw [hcommit]
      refine hfresh.commit_kept ?_
      show s1.active k = some v
      rw [hactive]
      exact hv
  · rw [if_pos hrc]
    have hcleared := clearPending_abs { s1 with smod_in_entry := false }
    have hsame : ({ s1 with smod_in_entry := false } : State).clearPending.active = s.active :=
      (congrArg Staged.active hcleared).trans hactive
    refine ⟨fun _ => ⟨rfl, hsame, hran.rest.boot_used, hran.rest.loaded_count⟩,
      fun hzero => absurd hzero hrc, fun k v hv => by rw [hsame]; exact hv, rfl,
      fun k => congrFun (congrArg Staged.staged hcleared) k, hgood.clearPending⟩

/-! ## Runs of activations -/

/-- An activation of a module whose code behaves as `entry`: a preload of any file under
any name, or a load of a path, whatever the filesystem and the allocator answer. -/
inductive Activates (arch : Nat) (s : State) (entry : Entry) : Bool → State → Prop where
  | preload (file : List UInt8) (name : CString) :
      Activates arch s entry (smod_core_preload arch entry s file name).1
        (smod_core_preload arch entry s file name).2
  | load {σ : Type} (H : σ → (r : Req) → Resp r × σ) (env : σ) (path : CString) (boot_magic : Nat)
      {rc : Bool} {s' : State}
      (hrun : ((smod_core_load_file arch entry s path boot_magic).run H env).1 = .done (rc, s')) :
      Activates arch s entry rc s'

variable {entry : Entry} {rc : Bool}

theorem Activated.names (h : Activated s entry rc s') (names : List (List UInt8)) :
    Activated s entry rc { s' with smod_preloaded_names := names } :=
  ⟨h.failed, h.succeeded, h.kept, h.settled.in_entry, h.settled.staged,
    h.settled.good.display, h.settled.good.input, h.settled.good.irq_chip, h.settled.good.floppy⟩

/-- A load ends without a call of the entry, or with an activation. -/
theorem smod_core_load_file_only (arch : Nat) (entry : Entry) (s : State) (path : CString)
    (boot_magic : Nat) : (smod_core_load_file arch entry s path boot_magic).Only (fun _ => True)
      fun r => r = (false, s) ∨ ∃ from_arena aligned_size,
        r = smod_activate s entry from_arena aligned_size := by
  unfold smod_core_load_file
  split
  · exact .inl rfl
  refine (Prog.only_true _).bind fun m _ => ?_
  cases m with
  | error e => exact .inl rfl
  | ok m =>
    dsimp only
    split
    · exact ⟨trivial, fun _ => .inr ⟨_, _, rfl⟩⟩
    · exact .inr ⟨_, _, rfl⟩

variable {arch : Nat}

/-- A module is refused before its code runs, and then nothing changes, or it is
activated. -/
theorem Activates.cases (h : Activates arch s entry rc s') (hgood : Good s) :
    (rc = false ∧ s' = s) ∨ Activated s entry rc s' := by
  cases h with
  | preload file name =>
    unfold smod_core_preload
    split
    · exact .inl ⟨rfl, rfl⟩
    split
    · exact .inl ⟨rfl, rfl⟩
    next sizes _ =>
    split
    · exact .inl ⟨rfl, rfl⟩
    split
    · exact .inl ⟨rfl, rfl⟩
    have hact := smod_activate_spec hgood entry true (alignedSize sizes.memory)
    generalize smod_activate s entry true (alignedSize sizes.memory) = r at hact
    obtain ⟨rc, s1⟩ := r
    cases rc with
    | false => exact .inr hact
    | true => exact .inr (hact.names _)
  | load H env path boot_magic hrun =>
    rcases (smod_core_load_file_only arch entry s path boot_magic).run H hrun with
      heq | ⟨from_arena, aligned_size, heq⟩
    · cases heq
      exact .inl ⟨rfl, rfl⟩
    have hact := smod_activate_spec hgood entry from_arena aligned_size
    rw [← heq] at hact
    exact .inr hact

/-- The states that activations reach. -/
inductive Reach (arch : Nat) (s0 : State) : State → Prop where
  | start : Reach arch s0 s0
  | step {s s' : State} {entry : Entry} {rc : Bool} :
      Reach arch s0 s → Activates arch s entry rc s' → Reach arch s0 s'

/-- The variables before the first activation. The core layers may point to built-in
drivers already. -/
def State.zero (display input irq_chip floppy : Driver) : State where
  uart := ⟨0, 0⟩
  rtc := ⟨0, 0⟩
  display := ⟨⟨0, 0, 0, 0, 0, 0, 0, 0, 0, 0, 0, 0, 0, 0, 0⟩, false,
    ⟨0, 0, 0, 0, 0, 0, 0, 0, 0, 0, 0, 0, 0, 0, 0⟩, false, display⟩
  input := ⟨⟨0, 0, 0, 0, 0, 0, 0, 0⟩, false, ⟨0, 0, 0, 0, 0, 0, 0, 0⟩, false, input⟩
  irq_chip := ⟨⟨0, 0, 0, 0, 0, 0⟩, false, ⟨0, 0, 0, 0, 0, 0⟩, false, irq_chip⟩
  floppy := ⟨⟨0, 0, 0, 0⟩, false, ⟨0, 0, 0, 0⟩, false, floppy⟩
  smod_in_entry := false
  smod_boot_used := 0
  smod_loaded_count := 0
  smod_preloaded_names := []

theorem State.zero_settled (display input irq_chip floppy : Driver) :
    Settled (State.zero display input irq_chip floppy) := by
  refine ⟨rfl, fun k => ?_, ⟨?_, ?_⟩, ⟨?_, ?_⟩, ⟨?_, ?_⟩, ⟨?_, ?_⟩⟩
  · cases k <;> rfl
  all_goals
    intro h
    cases h

theorem Settled.activates (h : Settled s) (hact : Activates arch s entry rc s') :
    Settled s' ∧ ∀ k v, s.active k = some v → s'.active k = some v := by
  rcases hact.cases h.good with ⟨-, rfl⟩ | hact
  · exact ⟨h, fun k v hv => hv⟩
  · exact ⟨hact.settled, hact.kept⟩

/-- What is active stays so. -/
theorem Settled.reach (h : Settled s) (hreach : Reach arch s s') :
    Settled s' ∧ ∀ k v, s.active k = some v → s'.active k = some v := by
  induction hreach with
  | start => exact ⟨h, fun k v hv => hv⟩
  | step _ hact ih =>
    obtain ⟨hsettled, hkept⟩ := ih
    obtain ⟨hsettled', hkept'⟩ := hsettled.activates hact
    exact ⟨hsettled', fun k v hv => hkept' k v (hkept k v hv)⟩

/-- **Registration is transactional.** In every state that a sequence of activations
reaches, nothing is staged and no entry runs. Every further activation is refused before
its entry is called, and changes nothing; or its entry is called, and then an entry that
returns non-zero leaves the active services, the arena and the module count as they were,
and one that returns 0 makes active exactly what its calls that returned 0 offered, beside
what was active. What is active stays active, with the same callbacks, for ever. -/
theorem registration_transactional (arch : Nat) (display input irq_chip floppy : Driver) (s : State)
    (h : Reach arch (State.zero display input irq_chip floppy) s) :
    Settled s ∧
    (∀ entry rc s', Activates arch s entry rc s' →
      (rc = false ∧ s' = s) ∨ Activated s entry rc s') ∧
    ∀ s', Reach arch s s' → ∀ k v, s.active k = some v → s'.active k = some v := by
  have hsettled := ((State.zero_settled display input irq_chip floppy).reach h).1
  exact ⟨hsettled, fun entry rc s' hact => hact.cases hsettled.good,
    fun s' hreach => (hsettled.reach hreach).2⟩

/-- An image with one byte of code, for the 32-bit build. -/
def sampleModule : List UInt8 :=
  [0x53, 0x4D, 0x4F, 0x44, 1, 0, 3, 0, 1, 0, 1, 0, 32, 0, 0, 0, 1, 0, 0, 0, 1, 0, 0, 0,
    0, 0, 0, 0, 0, 0, 0, 0, 0xc3]

/-- The name `a.mod`. -/
def sampleName : CString := ⟨[0x61, 0x2e, 0x6d, 0x6f, 0x64], by decide⟩

/-- An entry that registers a UART, twice, and a null clock, and returns 0. -/
def sampleEntry : Entry := ⟨[.uart 0x1000, .rtc 0, .uart 0x2000], 0, [], []⟩

/-- The first UART that a module registers stays. -/
theorem first_uart_stays :
    (smod_core_preload 1 sampleEntry (State.zero .builtin .builtin .builtin .nothing) sampleModule
      sampleName).2.active .uart = some (.uart 0x1000) ∧
    ∀ s', Reach 1 (smod_core_preload 1 sampleEntry (State.zero .builtin .builtin .builtin .nothing)
        sampleModule sampleName).2 s' → s'.active .uart = some (.uart 0x1000) := by
  have hactive : (smod_core_preload 1 sampleEntry (State.zero .builtin .builtin .builtin .nothing)
      sampleModule sampleName).2.active .uart = some (.uart 0x1000) := by decide +kernel
  refine ⟨hactive, fun s' hreach => ?_⟩
  exact (registration_transactional 1 .builtin .builtin .builtin .nothing _
    (Reach.start.step (.preload sampleModule sampleName))).2.2 s' hreach .uart _ hactive

end System1.Smod

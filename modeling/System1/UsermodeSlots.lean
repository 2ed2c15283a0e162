/-
Who shares memory with whom: the slots of nested programs.

`usermode_exec` loads a program into the slot its segments fit, without looking at who is
there. The shell's slot is given out at depth 0 only, so nothing waits there when it is
filled. The slot of the commands is given out at any depth. `usermode_core.h` keeps the
shell apart "so child commands cannot overwrite it", and when the caller is the shell it
is kept apart; but a command that calls `usermode_exec` on a command is overwritten by
it (`command_overwrites_its_caller`).

The rest of the file shows that this is the only way. What a call stores lies in the slot
it picked: the loader's stores by the loader's own confinement, the stack's because the
stack pointer stays between the ends of the stack range. So in every run in which no
command is loaded while a command is live, the live slots are distinct, hence apart, and
the memory of a waiting program changes in no step, from its call to its child's exit.
-/
import System1.Usermode

set_option autoImplicit false

namespace System1.Usermode

open System1.Lib System1.Sprg List

/-! ## The stores of the stack builder -/

/-- The request is a store to a block of `[lo, hi)`. -/
def StoresIn (lo hi : Nat) : Sprg.Req → Prop
  | .store addr bytes => lo ≤ addr ∧ addr + bytes.length ≤ hi
  | _ => False

theorem poke_only {lo hi addr : Nat} {bytes : List UInt8} {V : Unit → Prop}
    (h : lo ≤ addr ∧ addr + bytes.length ≤ hi) (hV : V ()) :
    (poke addr bytes).Only (StoresIn lo hi) V := ⟨h, fun _ => hV⟩

/-- A stack pointer between the ends of the range. -/
def SpIn (lo hi sp : Nat) : Prop := lo ≤ sp ∧ sp ≤ hi

/-- A string is copied below the stack pointer, -/
theorem copy_stack_string_only {lo hi sp : Nat} (hsp : SpIn lo hi sp) (text : CString) :
    (copy_stack_string sp lo text).Only (StoresIn lo hi) (SpIn lo hi) := by
  obtain ⟨hlo, hhi⟩ := hsp
  unfold copy_stack_string
  split
  · trivial
  split
  · trivial
  have hin : lo ≤ sp - (text.bytes.length + 1) ∧
      sp - (text.bytes.length + 1) + (text.bytes ++ [0]).length ≤ hi := by
    simp only [length_append, length_singleton]
    omega
  refine (poke_only hin trivial).bind (V := fun _ => True) fun _ _ => ?_
  exact ⟨hin.1, by omega⟩

theorem copyStrings_only {lo hi : Nat} (texts : List CString) {sp : Nat} (hsp : SpIn lo hi sp)
    (addrs : List Nat) :
    (copyStrings lo texts sp addrs).Only (StoresIn lo hi) fun r => SpIn lo hi r.1 := by
  induction texts generalizing sp addrs with
  | nil => exact hsp
  | cons text rest ih =>
    exact (copy_stack_string_only hsp text).bind fun sp' hsp' => ih hsp' _

/-- and so are the words of the vectors. -/
theorem pushAll_only {lo hi : Nat} (values : List Nat) {sp : Nat} (hsp : SpIn lo hi sp) :
    (pushAll lo values sp).Only (StoresIn lo hi) fun _ => True := by
  induction values generalizing sp with
  | nil => trivial
  | cons v rest ih =>
    obtain ⟨hlo, hhi⟩ := hsp
    unfold pushAll
    split
    · trivial
    have hin : lo ≤ sp - 4 ∧ sp - 4 + (bytes32 v).length ≤ hi := by
      simp only [bytes32, length_cons, length_nil]
      omega
    refine (poke_only hin trivial).bind (V := fun _ => True) fun _ _ => ?_
    exact ih ⟨hin.1, by omega⟩

/-- Rounding the stack pointer down stays in a range that starts at a multiple of 4. -/
theorem build_initial_stack_only {lo hi : Nat} (halign : lo % 4 = 0) (hle : lo ≤ hi)
    (path : CString) (argv envp : List CString) :
    (build_initial_stack lo hi path argv envp).Only (StoresIn lo hi) fun _ => True := by
  unfold build_initial_stack
  split
  · trivial
  split
  · trivial
  refine (copyStrings_only envp ⟨hle, Nat.le_refl hi⟩ []).bind fun r hr => ?_
  obtain ⟨sp, env_addr⟩ := r
  refine (copyStrings_only _ hr []).bind fun r hr => ?_
  obtain ⟨sp', argv_addr⟩ := r
  dsimp only [SpIn] at hr ⊢
  apply pushAll_only
  unfold SpIn
  omega

/-- The environment of a handler, as a relation. -/
def Handles (W : Nat) (fs : Fs) (s : Env) (r : Sprg.Req) (x : Sprg.Resp r) (s' : Env) : Prop :=
  x = (handler W fs s r).1 ∧ s' = (handler W fs s r).2

/-- A program whose stores lie in a range changes memory in that range only. -/
theorem Only.mem_of_storesIn {ε α : Type} {p : Prog Sprg.Resp ε α} {lo hi W : Nat}
    {V : α → Prop} (hp : p.Only (StoresIn lo hi) V) (hW : hi ≤ 2 ^ W) (fs : Fs) (s : Env)
    {a : Nat} (ha : a < lo ∨ hi ≤ a) : (p.run (handler W fs) s).2.mem a = s.mem a := by
  have hwp := hp.wp (R := Handles W fs) (I := fun s' => s'.mem a = s.mem a) ?_ (s := s) rfl
  · exact (Prog.wp_run (handler W fs) (fun s r => ⟨rfl, rfl⟩) hwp).1
  · intro s1 r x s2 hr h1 h2
    cases r with
    | store addr bytes =>
      obtain ⟨hlo, hhi⟩ := hr
      rw [h2.2]
      exact (storeBytes_miss bytes s1.mem addr a (by omega) (by omega)).trans h1
    | fs_stat | fs_core_open | fs_core_close | fs_core_read => exact hr.elim

/-! ## The ranges of a slot -/

/-- The addresses a program in the slot uses: its image and its stack. -/
def Slot.Covers (slot : Slot) (a : Nat) : Prop :=
  (slot.program_min ≤ a ∧ a < slot.program_max) ∨ (slot.stack_min ≤ a ∧ a < slot.stack_top)

/-- No address is used by both. -/
def Slot.Apart (s t : Slot) : Prop := ∀ a, s.Covers a → ¬ t.Covers a

theorem Slot.apart_of_ne {s t : Slot} (h : s ≠ t) : s.Apart t := by
  intro a hs ht
  cases s <;> cases t <;>
    simp [Slot.Covers, Slot.program_min, Slot.program_max, Slot.stack_min, Slot.stack_top]
      at h hs ht <;>
    omega

/-! ## One call -/

section

variable {τ : Type} {cpu : Cpu τ}

/-- What a call does when nothing has been loaded. -/
structure NoEffect (m m' : Machine τ) : Prop where
  mem : m'.env.mem = m.env.mem
  live : m'.live = m.live
  depth : m'.g_usermode_exec_depth = m.g_usermode_exec_depth

/-- What a call does once it has picked `slot`: memory changes in the slot only, and the
program is entered or not. -/
structure Took (m m' : Machine τ) (slot : Slot) : Prop where
  mem : ∀ a, ¬ slot.Covers a → m'.env.mem a = m.env.mem a
  entered : (m'.live = m.live ∧ m'.g_usermode_exec_depth = m.g_usermode_exec_depth) ∨
    (m'.live = slot :: m.live ∧ m'.g_usermode_exec_depth = m.g_usermode_exec_depth + 1)

/-- Entering a program stores to its slot only. -/
theorem enterImage_took (hW : cpu.W = 32 ∨ cpu.W = 64) (call : ExecCall) (slot : Slot)
    (image : Image) (m : Machine τ) : Took m (enterImage cpu call slot image m).2 slot := by
  have hstack : slot.stack_top ≤ 2 ^ cpu.W ∧ slot.stack_min % 4 = 0 ∧
      slot.stack_min ≤ slot.stack_top := by
    rcases hW with hW | hW <;> rw [hW] <;> cases slot <;>
      simp [Slot.stack_min, Slot.stack_top]
  have hmem : ∀ a, ¬ slot.Covers a →
      ((build_initial_stack slot.stack_min slot.stack_top call.path call.argv call.envp).run
        (handler cpu.W call.fs) m.env).2.mem a = m.env.mem a := by
    intro a ha
    refine Only.mem_of_storesIn
      (build_initial_stack_only hstack.2.1 hstack.2.2 call.path call.argv call.envp) hstack.1 _ _ ?_
    unfold Slot.Covers at ha
    omega
  unfold enterImage
  generalize mapSegments cpu image.segments m.tables = r
  obtain ⟨ok, t⟩ := r
  cases ok with
  | false => exact ⟨fun a _ => rfl, .inl ⟨rfl, rfl⟩⟩
  | true =>
    dsimp only [Machine.perform]
    generalize (build_initial_stack slot.stack_min slot.stack_top call.path call.argv
      call.envp).run (handler cpu.W call.fs) m.env = o at hmem ⊢
    obtain ⟨r, env⟩ := o
    cases r with
    | done sp =>
      dsimp only
      split
      · exact ⟨hmem, .inr ⟨rfl, rfl⟩⟩
      · exact ⟨hmem, .inl ⟨rfl, rfl⟩⟩
    | fail rc => exact ⟨hmem, .inl ⟨rfl, rfl⟩⟩
    | spin => exact ⟨hmem, .inl ⟨rfl, rfl⟩⟩

/-- The image that the first reading of the file gives, when it is accepted. -/
def Validates (cpu : Cpu τ) (m : Machine τ) (call : ExecCall) (image : Image) : Prop :=
  ((sprg_core_validate_file call.path SPRG_ARCH_I386).run (handler cpu.W call.fs) m.env).1 =
    .done image

/-- A call of `usermode_exec` on a file changes memory in the slot it picks only. -/
theorem usermode_exec_enter_cases (hW : cpu.W = 32 ∨ cpu.W = 64) (call : ExecCall)
    {file : List UInt8} (hfs : call.fs.Serves file) (m : Machine τ) :
    NoEffect m (usermode_exec_enter cpu call m).2 ∨
    m.g_usermode_exec_depth < USERMODE_EXEC_DEPTH_MAX ∧
    ∃ image slot, Validates cpu m call image ∧
      selectSlot cpu.W m.g_usermode_exec_depth image = .ok slot ∧
      Took m (usermode_exec_enter cpu call m).2 slot := by
  unfold usermode_exec_enter Validates
  split
  · exact .inl ⟨rfl, rfl, rfl⟩
  next hdepth =>
  dsimp only [Machine.perform]
  obtain ⟨hquiet, -⟩ := (Prog.wp_run (handler cpu.W call.fs) (handler_allowed hfs)
    (sprg_core_validate_file_spec call.path SPRG_ARCH_I386 m.env)).elim
  generalize (sprg_core_validate_file call.path SPRG_ARCH_I386).run
    (handler cpu.W call.fs) m.env = v
    at hquiet
  obtain ⟨r, env⟩ := v
  cases r with
  | fail rc => exact .inl ⟨hquiet.1, rfl, rfl⟩
  | spin => exact .inl ⟨hquiet.1, rfl, rfl⟩
  | done image =>
    dsimp only
    cases hslot : selectSlot cpu.W m.g_usermode_exec_depth image with
    | error rc => exact .inl ⟨hquiet.1, rfl, rfl⟩
    | ok slot =>
      refine .inr ⟨Nat.lt_of_not_le hdepth, image, slot, rfl, hslot, ?_⟩
      dsimp only
      obtain ⟨hwrote, -⟩ := (Prog.wp_run (handler cpu.W call.fs) (handler_allowed hfs)
        (sprg_core_load_file_spec hW call.path SPRG_ARCH_I386 slot.program_min
          slot.program_max env)).elim
      -- the loader has written to the program range, if at all
      have hmem : ∀ a, ¬ slot.Covers a → ((sprg_core_load_file cpu.W call.path SPRG_ARCH_I386
          slot.program_min slot.program_max).run (handler cpu.W call.fs) env).2.mem a =
            m.env.mem a := by
        intro a ha
        unfold Slot.Covers at ha
        exact (hwrote.mem a (by omega)).trans (congrFun hquiet.1 a)
      generalize (sprg_core_load_file cpu.W call.path SPRG_ARCH_I386 slot.program_min
        slot.program_max).run (handler cpu.W call.fs) env = l at hmem
      obtain ⟨r, env'⟩ := l
      cases r with
      | fail rc => exact ⟨hmem, .inl ⟨rfl, rfl⟩⟩
      | spin => exact ⟨hmem, .inl ⟨rfl, rfl⟩⟩
      | done image' =>
        obtain ⟨hstack, hentered⟩ := enterImage_took hW call slot image'
          ⟨m.tables, m.g_usermode_exec_depth, env', m.live⟩
        exact ⟨fun a ha => (hstack a ha).trans (hmem a ha), hentered⟩

/-! ## Runs -/

/-- The block lies in the program range or in the stack range of the slot. -/
def Slot.Holds (slot : Slot) (addr size : Nat) : Prop :=
  (slot.program_min ≤ addr ∧ addr + size ≤ slot.program_max) ∨
    (slot.stack_min ≤ addr ∧ addr + size ≤ slot.stack_top)

/-- A call is on an unchanging file, and a program stores to its own ranges. -/
def Event.Regular (m : Machine τ) : Event → Prop
  | .exec call => ∃ file, call.fs.Serves file
  | .exit => True
  | .store addr bytes => ∃ slot, m.live.head? = some slot ∧ slot.Holds addr bytes.length

/-- A program that fits the command slot is not executed while a command is live. A call
that is refused for its depth does not count. -/
def Event.CommandFree (cpu : Cpu τ) (m : Machine τ) : Event → Prop
  | .exec call => m.g_usermode_exec_depth < USERMODE_EXEC_DEPTH_MAX →
      ∀ image, Validates cpu m call image →
      image_fits_slot cpu.W image Slot.command.program_min Slot.command.program_max = true →
      Slot.command ∉ m.live
  | _ => True

/-- The live slots are distinct, and the depth counts them. -/
structure Nested (m : Machine τ) : Prop where
  depth : m.g_usermode_exec_depth = m.live.length
  nodup : m.live.Nodup

section

variable {m : Machine τ} (h : Nested m)

include h

theorem Nested.pairwise : m.live.Pairwise Slot.Apart := by
  have hnodup := h.nodup
  exact hnodup.imp fun hne => Slot.apart_of_ne hne

/-- The slot a call picks is not the slot of a live program. -/
theorem Nested.picks_free {call : ExecCall} {image : Image} {slot : Slot}
    (hfree : (Event.exec call).CommandFree cpu m)
    (hbelow : m.g_usermode_exec_depth < USERMODE_EXEC_DEPTH_MAX)
    (hval : Validates cpu m call image)
    (hslot : selectSlot cpu.W m.g_usermode_exec_depth image = .ok slot) : slot ∉ m.live := by
  unfold selectSlot at hslot
  split at hslot
  · next hfits =>
    cases hslot
    exact hfree hbelow image hval hfits
  split at hslot
  · split at hslot
    · cases hslot
    next hdepth =>
    -- at depth 0 nobody is live
    have hnil : m.live = [] := by
      apply eq_nil_of_length_eq_zero
      rw [← h.depth]
      omega
    rw [hnil]
    exact not_mem_nil
  · cases hslot

/-- One event keeps the live slots distinct. -/
theorem Nested.step (hW : cpu.W = 32 ∨ cpu.W = 64) {e : Event} (hreg : e.Regular m)
    (hfree : e.CommandFree cpu m) (hposs : e.Possible m) :
    Nested (m.step cpu e) := by
  cases e with
  | store addr bytes => exact ⟨h.depth, h.nodup⟩
  | exit =>
    refine ⟨?_, h.nodup.sublist (tail_sublist _)⟩
    show m.g_usermode_exec_depth - 1 = m.live.tail.length
    rw [h.depth, length_tail]
  | exec call =>
    obtain ⟨file, hfs⟩ := hreg
    show Nested (usermode_exec_enter cpu call m).2
    rcases usermode_exec_enter_cases hW call hfs m with
      hno | ⟨hbelow, image, slot, hval, hslot, htook⟩
    · exact ⟨by rw [hno.depth, hno.live]; exact h.depth, by rw [hno.live]; exact h.nodup⟩
    rcases htook.entered with ⟨hlive, hdepth⟩ | ⟨hlive, hdepth⟩
    · exact ⟨by rw [hdepth, hlive]; exact h.depth, by rw [hlive]; exact h.nodup⟩
    refine ⟨by rw [hdepth, hlive, length_cons, h.depth], ?_⟩
    rw [hlive]
    exact nodup_cons.mpr ⟨h.picks_free hfree hbelow hval hslot, h.nodup⟩

end

/-- The events that happen while the programs of `base` wait: calls made by the last of
them or above it, and anything a program above it does. -/
def Event.Above (base : List Slot) (m : Machine τ) : Event → Prop
  | .exec _ => base <:+ m.live
  | _ => base <:+ m.live.tail

/-- One event leaves the memory of the waiting programs alone. -/
theorem Nested.step_mem {m : Machine τ} (h : Nested m) (hW : cpu.W = 32 ∨ cpu.W = 64) {e : Event}
    (hreg : e.Regular m) (hfree : e.CommandFree cpu m) {base : List Slot} (habove : e.Above base m)
    {slot : Slot} (hmem : slot ∈ base) {a : Nat} (ha : slot.Covers a) :
    (m.step cpu e).env.mem a = m.env.mem a := by
  cases e with
  | exit => rfl
  | store addr bytes =>
    obtain ⟨top, htop, hholds⟩ := hreg
    have hslot : slot ∈ m.live.tail := habove.subset hmem
    -- the running program is not among those that wait
    have hne : top ≠ slot := by
      rintro rfl
      have hnodup := h.nodup
      cases hl : m.live with
      | nil => rw [hl] at htop; cases htop
      | cons x rest => grind
    have hout : ¬ (addr ≤ a ∧ a < addr + bytes.length) := by
      intro hin
      refine Slot.apart_of_ne hne a ?_ ha
      unfold Slot.Holds at hholds
      unfold Slot.Covers
      omega
    have hfit : addr + bytes.length ≤ 2 ^ cpu.W := by
      rcases hW with hW | hW <;> rw [hW] <;> revert hholds <;> cases top <;>
        simp only [Slot.Holds, Slot.program_min, Slot.program_max, Slot.stack_min,
          Slot.stack_top] <;> omega
    exact storeBytes_miss bytes m.env.mem addr a hfit (by omega)
  | exec call =>
    obtain ⟨file, hfs⟩ := hreg
    show (usermode_exec_enter cpu call m).2.env.mem a = m.env.mem a
    rcases usermode_exec_enter_cases hW call hfs m with
      hno | ⟨hbelow, image, picked, hval, hslot, htook⟩
    · rw [hno.mem]
    apply htook.mem
    have hlive : slot ∈ m.live := habove.subset hmem
    have hne : slot ≠ picked := by
      rintro rfl
      exact h.picks_free hfree hbelow hval hslot hlive
    exact Slot.apart_of_ne hne a ha

/-- The condition on the events of a run. -/
def Careful (cpu : Cpu τ) (m : Machine τ) (e : Event) : Prop := e.Regular m ∧ e.CommandFree cpu m

/-- A stretch of a run during which the programs of `base` wait. -/
inductive While (cpu : Cpu τ) (P : Machine τ → Event → Prop) (base : List Slot) :
    Machine τ → Machine τ → Prop where
  | refl (m : Machine τ) : While cpu P base m m
  | step {m m' : Machine τ} (e : Event) : While cpu P base m m' → e.Possible m' → P m' e →
      e.Above base m' → While cpu P base m (m'.step cpu e)

theorem Reach.nested {m0 m : Machine τ} (hW : cpu.W = 32 ∨ cpu.W = 64) (h0 : Nested m0)
    (h : Reach cpu (Careful cpu) m0 m) : Nested m := by
  induction h with
  | start => exact h0
  | step e _ hposs hcare ih => exact ih.step hW hcare.1 hcare.2 hposs

/-- The run lemma: while programs wait, their memory stays. -/
theorem While.intact {base : List Slot} {m m' : Machine τ} (hW : cpu.W = 32 ∨ cpu.W = 64)
    (h0 : Nested m) (h : While cpu (Careful cpu) base m m') :
    Nested m' ∧ ∀ slot ∈ base, ∀ a, slot.Covers a → m'.env.mem a = m.env.mem a := by
  induction h with
  | refl => exact ⟨h0, fun slot _ a _ => rfl⟩
  | step e _ hposs hcare habove ih =>
    obtain ⟨hnested, hmem⟩ := ih
    refine ⟨hnested.step hW hcare.1 hcare.2 hposs, fun slot hslot a ha => ?_⟩
    rw [hnested.step_mem hW hcare.1 hcare.2 habove hslot ha]
    exact hmem slot hslot a ha

end

/-- **A running program is not overwritten by its child**, in every run in which no
program that fits the command slot is executed while a command is live: in every state the
ranges of the live programs are apart, a call that enters a program gives it a slot apart
from all of them, and from any state on, as long as some programs wait, no byte of their
ranges changes. -/
theorem live_programs_intact {τ : Type} (cpu : Cpu τ) (hW : cpu.W = 32 ∨ cpu.W = 64)
    (m0 : Machine τ) (hdepth : m0.g_usermode_exec_depth = 0) (hlive : m0.live = [])
    (m : Machine τ) (h : Reach cpu (Careful cpu) m0 m) :
    m.live.Pairwise Slot.Apart ∧
    (∀ call, Careful cpu m (.exec call) → ∀ slot,
      (m.step cpu (.exec call)).live = slot :: m.live → ∀ other ∈ m.live, slot.Apart other) ∧
    ∀ base m', While cpu (Careful cpu) base m m' → ∀ slot ∈ base, ∀ a, slot.Covers a →
      m'.env.mem a = m.env.mem a := by
  have h0 : Nested m0 := ⟨by rw [hdepth, hlive]; rfl, by rw [hlive]; exact nodup_nil⟩
  have hnested := h.nested hW h0
  refine ⟨hnested.pairwise, ?_, ?_⟩
  · intro call hcare slot hslot other hother
    have hnext := (hnested.step hW hcare.1 hcare.2 (e := .exec call) trivial).pairwise
    rw [hslot] at hnext
    exact rel_of_pairwise_cons hnext hother
  · intro base m' hwhile
    exact (hwhile.intact hW hnested).2

/-- A shell that runs a command: their slots are apart, and the shell's memory is intact
when the command has exited. -/
theorem shell_runs_command_intact :
    ((booted32.step i386 (.exec shellCall)).step i386 (.exec commandCall)).live =
      [.command, .shell] ∧
    ((booted32.step i386 (.exec shellCall)).step i386 (.exec commandCall)).live.Pairwise
      Slot.Apart ∧
    ∀ a, Slot.shell.Covers a →
      (((booted32.step i386 (.exec shellCall)).step i386 (.exec commandCall)).step i386
        .exit).env.mem a = (booted32.step i386 (.exec shellCall)).env.mem a := by
  have hshell : (booted32.step i386 (.exec shellCall)).live = [.shell] := by decide +kernel
  have hboth : ((booted32.step i386 (.exec shellCall)).step i386 (.exec commandCall)).live =
      [.command, .shell] := by decide +kernel
  have hcare1 : Careful i386 booted32 (.exec shellCall) :=
    ⟨⟨_, fileFs_serves (programFile 8)⟩, fun _ image _ _ => not_mem_nil⟩
  have hcare2 : Careful i386 (booted32.step i386 (.exec shellCall)) (.exec commandCall) := by
    refine ⟨⟨_, fileFs_serves (programFile 6)⟩, fun _ image _ _ => ?_⟩
    rw [hshell]
    decide
  have hreach1 : Reach i386 (Careful i386) booted32 (booted32.step i386 (.exec shellCall)) :=
    Reach.start.step (.exec shellCall) trivial hcare1
  have hreach2 := hreach1.step (.exec commandCall) trivial hcare2
  refine ⟨hboth, (live_programs_intact i386 (.inl rfl) booted32 rfl rfl _ hreach2).1,
    fun a ha => ?_⟩
  have hwhile0 : While i386 (Careful i386) [.shell] (booted32.step i386 (.exec shellCall))
      (booted32.step i386 (.exec shellCall)) := .refl _
  have hwhile := (hwhile0.step (.exec commandCall) trivial hcare2
    (by simp [Event.Above, hshell])).step .exit (by simp [Event.Possible, hboth]) ⟨trivial, trivial⟩
    (by simp [Event.Above, hboth])
  exact (live_programs_intact i386 (.inl rfl) booted32 rfl rfl _ hreach1).2.2 _ _ hwhile .shell
    mem_cons_self a ha

/-- **A command that executes a command is overwritten by it**, on both builds. The caller
has written `0x41` to its own data; the call that it makes puts the new program into the
same slot, with the caller still live, and the byte is gone. -/
theorem command_overwrites_its_caller :
    (let m1 := (booted32.step i386 (.exec commandCall)).step i386 (.store 0x60002 [0x41])
      let m2 := m1.step i386 (.exec commandCall)
      m1.live = [.command] ∧ m2.live = [.command, .command] ∧
        m1.env.mem 0x60002 = 0x41 ∧ m2.env.mem 0x60002 = 0) ∧
    (let m1 := (booted64.step x86_64 (.exec commandCall)).step x86_64 (.store 0x60002 [0x41])
      let m2 := m1.step x86_64 (.exec commandCall)
      m1.live = [.command] ∧ m2.live = [.command, .command] ∧
        m1.env.mem 0x60002 = 0x41 ∧ m2.env.mem 0x60002 = 0) := by
  decide +kernel

end System1.Usermode

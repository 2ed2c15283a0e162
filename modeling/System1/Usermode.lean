/-
User programs, `src/kernel/arch/i386/modules/usermode/usermode.c` and its twin under
`src/kernel/arch/x86_64`.

`usermode_exec` reads the headers of a program, picks one of two slots by the addresses
of its segments, loads the segments, gives their pages to ring 3, builds the initial
stack in the slot's stack range and enters the program. It returns when the program has
exited, so programs nest, and the caller waits with its memory in place.

The two files have the same text but for the width of an address, the page tables below
(`Paging`) and the ranges `usermode_init` maps; `Cpu` holds what differs. The model of
`usermode_exec` is cut at the point where the program is entered: `usermode_exec_enter`
is what comes before it, `usermode_exec_leave` what comes after it. What happens in
between is more calls. `live` lists the slots of the programs that have been entered and
not left, the running one first; nothing in the source reads it.

`process_core_spawn_exec` is a parameter that says whether it found a slot. The segment
descriptors, the kernel stacks and the log are left out.
-/
import System1.SprgLoader
import System1.Paging
import System1.Fd

set_option autoImplicit false

namespace System1.Usermode

open System1.Lib System1.Sprg System1.Paging
open System1.Fd (POSIX_EINVAL POSIX_ENOSPC)

def POSIX_ENOENT : Int := 2
def POSIX_EIO : Int := 5
def POSIX_E2BIG : Int := 7
def POSIX_ENOEXEC : Int := 8

def USERMODE_EXEC_DEPTH_MAX : Nat := 2
def USERMODE_ARG_MAX : Nat := 16
def USERMODE_ENV_MAX : Nat := 8
def USERMODE_STRING_MAX : Nat := 128
def SPRG_ARCH_I386 : Nat := 1
def SPRG_FLAG_W : Nat := 2

/-! ## Slots -/

/-- The two places of `usermode_core.h`: one for short-lived commands, and one for the
persistent shell. -/
inductive Slot where
  | command
  | shell
  deriving DecidableEq, Repr

def Slot.program_min : Slot → Nat
  | .command => 0x00060000
  | .shell => 0x00080000

def Slot.program_max : Slot → Nat
  | .command => 0x00070000
  | .shell => 0x00090000

def Slot.stack_min : Slot → Nat
  | .command => 0x00070000
  | .shell => 0x00090000

def Slot.stack_top : Slot → Nat
  | .command => 0x00080000
  | .shell => 0x0009F000

/-- What differs between the two files. -/
structure Cpu (τ : Type) where
  /-- The width of `uintptr_t`. -/
  W : Nat
  paging_set_user_range : τ → Nat → Nat → Bool → Bool × τ
  /-- The ranges `usermode_init` maps, in its order. -/
  init_ranges : List (Nat × Nat)

def i386 : Cpu Tables32 where
  W := 32
  paging_set_user_range := paging_core_set_user_range_x86
  init_ranges := [(Slot.command.stack_min, Slot.command.stack_top),
    (Slot.shell.stack_min, Slot.shell.stack_top)]

def x86_64 : Cpu Tables64 where
  W := 64
  paging_set_user_range := paging_core_set_user_range_x64
  init_ranges := [(Slot.command.program_min, Slot.command.program_max),
    (Slot.command.stack_min, Slot.command.stack_top),
    (Slot.shell.program_min, Slot.shell.program_max),
    (Slot.shell.stack_min, Slot.shell.stack_top)]

/-! ## Slot selection -/

def sprg_error_to_posix (rc : SprgErr) : Int :=
  if rc = .NOT_FOUND then -POSIX_ENOENT
  else if rc = .TOO_LARGE then -POSIX_ENOSPC
  else if rc = .BAD_MAGIC ∨ rc = .BAD_VERSION ∨ rc = .BAD_ARCH ∨ rc = .BAD_HEADER ∨
      rc = .UNSUPPORTED then -POSIX_ENOEXEC
  else -POSIX_EINVAL

/-- The end of a segment, in the arithmetic of `uintptr_t`. -/
def segmentEnd (W : Nat) (seg : Segment) : Nat := (seg.vaddr + seg.memsz) % 2 ^ W

def image_fits_slot (W : Nat) (image : Image) (min max : Nat) : Bool :=
  image.segments.all fun seg =>
    decide (¬ (segmentEnd W seg < seg.vaddr ∨ seg.vaddr < min ∨ segmentEnd W seg > max))

/-- The slot that `usermode_exec` picks. The shell's is given out at depth 0 only. -/
def selectSlot (W g_usermode_exec_depth : Nat) (image : Image) : Except Int Slot :=
  if image_fits_slot W image Slot.command.program_min Slot.command.program_max then .ok .command
  else if image_fits_slot W image Slot.shell.program_min Slot.shell.program_max then
    if g_usermode_exec_depth ≠ 0 then .error (-POSIX_ENOSPC) else .ok .shell
  else .error (-POSIX_ENOEXEC)

/-! ## The initial stack -/

/-- Programs that store to memory and fail with an error number. -/
abbrev U (α : Type) : Type := Prog Sprg.Resp Int α

def poke (addr : Nat) (bytes : List UInt8) : U Unit := .call (.store addr bytes) .done

/-- The bytes of a `uint32_t`. -/
def bytes32 (v : Nat) : List UInt8 :=
  [UInt8.ofNat v, UInt8.ofNat (v / 2 ^ 8), UInt8.ofNat (v / 2 ^ 16), UInt8.ofNat (v / 2 ^ 24)]

/-- Copies a string with its NUL below `sp` and returns the new `sp`, its address. -/
def copy_stack_string (sp stack_min : Nat) (text : CString) : U Nat :=
  if text.bytes.length ≥ USERMODE_STRING_MAX then .fail (-POSIX_E2BIG)
  else if sp < stack_min + (text.bytes.length + 1) then .fail (-POSIX_ENOSPC)
  else do
    poke (sp - (text.bytes.length + 1)) (text.bytes ++ [0])
    .done (sp - (text.bytes.length + 1))

/-- The loops over `envp` and `argv`: the new `sp` and the addresses of the strings. -/
def copyStrings (stack_min : Nat) : List CString → Nat → List Nat → U (Nat × List Nat)
  | [], sp, addrs => .done (sp, addrs)
  | text :: rest, sp, addrs => do
    let sp ← copy_stack_string sp stack_min text
    copyStrings stack_min rest sp (addrs ++ [sp])

/-- `PUSH_U32` for every value in turn. -/
def pushAll (stack_min : Nat) : List Nat → Nat → U Nat
  | [], sp => .done sp
  | v :: rest, sp =>
    if sp < stack_min + 4 then .fail (-POSIX_ENOSPC)
    else do
      poke (sp - 4) (bytes32 v)
      pushAll stack_min rest (sp - 4)

/-- `argv` and `envp` without their null ends; a null pointer is the empty list. Without
arguments the path is the only one. -/
def build_initial_stack (stack_min stack_top : Nat) (path : CString) (argv envp : List CString) :
    U Nat :=
  if argv.length > USERMODE_ARG_MAX then .fail (-POSIX_E2BIG)
  else if envp.length > USERMODE_ENV_MAX then .fail (-POSIX_E2BIG)
  else do
    let args := if argv.isEmpty then [path] else argv
    let (sp, env_addr) ← copyStrings stack_min envp stack_top []
    let (sp, argv_addr) ← copyStrings stack_min args sp []
    pushAll stack_min ([0] ++ env_addr.reverse ++ [0] ++ argv_addr.reverse ++ [args.length])
      (sp / 4 * 4)

/-! ## The machine -/

structure Machine (τ : Type) where
  tables : τ
  g_usermode_exec_depth : Nat
  /-- Memory, with the calls made to the filesystem and the addresses stored to. -/
  env : Env
  live : List Slot

/-- The arguments of one call of `usermode_exec` and the answers it gets: those of the
filesystem, and whether a process slot is found. -/
structure ExecCall where
  path : CString
  argv : List CString
  envp : List CString
  fs : Fs
  spawned : Bool

variable {τ : Type}

/-- Runs a program of the loader or of the stack builder. -/
def Machine.perform {ε α : Type} (cpu : Cpu τ) (fs : Fs) (m : Machine τ) (p : Prog Sprg.Resp ε α) :
    Outcome ε α × Machine τ :=
  ((p.run (handler cpu.W fs) m.env).1, { m with env := (p.run (handler cpu.W fs) m.env).2 })

/-- The loop that gives the pages of the segments to ring 3. -/
def mapSegments (cpu : Cpu τ) : List Segment → τ → Bool × τ
  | [], t => (true, t)
  | seg :: rest, t =>
    let writable := decide (seg.flags &&& SPRG_FLAG_W ≠ 0)
    match cpu.paging_set_user_range t seg.vaddr (segmentEnd cpu.W seg) writable with
    | (true, t') => mapSegments cpu rest t'
    | (false, t') => (false, t')

/-- How `usermode_exec` reports an error of the loader. The loader has no fuel to run out
of. -/
def loaderError {α : Type} : Outcome SprgErr α → Int
  | .fail rc => sprg_error_to_posix rc
  | _ => -POSIX_EINVAL

/-- From the loaded image to the entry: pages, stack and process. -/
def enterImage (cpu : Cpu τ) (call : ExecCall) (slot : Slot) (image : Image) (m : Machine τ) :
    Except Int (Nat × Nat) × Machine τ :=
  match mapSegments cpu image.segments m.tables with
  | (false, t) => (.error (- POSIX_EIO), { m with tables := t })
  | (true, t) =>
    match ({ m with tables := t } : Machine τ).perform cpu call.fs
        (build_initial_stack slot.stack_min slot.stack_top call.path call.argv call.envp) with
    | (.done initial_sp, m') =>
      if call.spawned then
        (.ok (image.entry, initial_sp), { m' with
          g_usermode_exec_depth := m'.g_usermode_exec_depth + 1
          live := slot :: m'.live })
      else (.error (-POSIX_ENOSPC), m')
    | (.fail rc, m') => (.error rc, m')
    | (.spin, m') => (.error (-POSIX_EINVAL), m')

/-- `usermode_exec` up to the entry of the program: the error it returns, or the entry
point and the stack pointer the program starts with. -/
def usermode_exec_enter (cpu : Cpu τ) (call : ExecCall) (m : Machine τ) :
    Except Int (Nat × Nat) × Machine τ :=
  if m.g_usermode_exec_depth ≥ USERMODE_EXEC_DEPTH_MAX then (.error (-POSIX_ENOSPC), m)
  else
    match m.perform cpu call.fs (sprg_core_validate_file call.path SPRG_ARCH_I386) with
    | (.done image, m1) =>
      match selectSlot cpu.W m1.g_usermode_exec_depth image with
      | .error rc => (.error rc, m1)
      | .ok slot =>
        match m1.perform cpu call.fs (sprg_core_load_file cpu.W call.path SPRG_ARCH_I386
            slot.program_min slot.program_max) with
        | (.done image, m2) => enterImage cpu call slot image m2
        | (r, m2) => (.error (loaderError r), m2)
    | (r, m1) => (.error (loaderError r), m1)

/-- `usermode_exec` from the exit of the program on. -/
def usermode_exec_leave (m : Machine τ) : Machine τ :=
  { m with g_usermode_exec_depth := m.g_usermode_exec_depth - 1, live := m.live.tail }

/-- The loop over the ranges of `usermode_init`. -/
def mapRanges (cpu : Cpu τ) : List (Nat × Nat) → τ → Bool × τ
  | [], t => (true, t)
  | r :: rest, t =>
    match cpu.paging_set_user_range t r.1 r.2 true with
    | (true, t') => mapRanges cpu rest t'
    | (false, t') => (false, t')

def usermode_init (cpu : Cpu τ) (m : Machine τ) : Bool × Machine τ :=
  match mapRanges cpu cpu.init_ranges m.tables with
  | (true, t) => (true, { m with tables := t, g_usermode_exec_depth := 0, live := [] })
  | (false, t) => (false, { m with tables := t })

/-- The state after both initialisations, with the tables of `paging_core_init`. -/
def started {τ : Type} (cpu : Cpu τ) (tables : τ) (env : Env) : Machine τ :=
  (usermode_init cpu ⟨tables, 0, env, []⟩).2

/-! ## Runs -/

/-- What happens on the machine: a call of `usermode_exec`, by the kernel shell or by the
running program; the exit of the running program; and a store it makes. -/
inductive Event where
  | exec (call : ExecCall)
  | exit
  | store (addr : Nat) (bytes : List UInt8)

/-- Only a program that has been entered exits. -/
def Event.Possible (m : Machine τ) : Event → Prop
  | .exit => m.live ≠ []
  | _ => True

def Machine.step (cpu : Cpu τ) (m : Machine τ) : Event → Machine τ
  | .exec call => (usermode_exec_enter cpu call m).2
  | .exit => usermode_exec_leave m
  | .store addr bytes =>
    { m with env := { m.env with mem := storeBytes (2 ^ cpu.W) m.env.mem addr bytes } }

/-- The states of the runs from `m0` in which every event satisfies `P`. -/
inductive Reach (cpu : Cpu τ) (P : Machine τ → Event → Prop) (m0 : Machine τ) :
    Machine τ → Prop where
  | start : Reach cpu P m0 m0
  | step {m : Machine τ} (e : Event) : Reach cpu P m0 m → e.Possible m → P m e →
      Reach cpu P m0 (m.step cpu e)

/-! ## Two programs -/

/-- A program with one segment of two bytes of code and two of zeroed data, linked at
page `page` of 64 KiB. -/
def programFile (page : UInt8) : List UInt8 :=
  [0x53, 0x50, 0x52, 0x47, 1, 0, 0, 0, 1, 0, 0, 0, 0, 0, page, 0,
    28, 0, 0, 0, 1, 0, 0, 0, 0, 0, 0, 0,
    1, 0, 0, 0, 60, 0, 0, 0, 0, 0, page, 0, 2, 0, 0, 0,
    4, 0, 0, 0, 7, 0, 0, 0, 0, 0, 0, 0, 0, 0, 0, 0, 0x90, 0xc3]

/-- A filesystem that delivers the bytes of a file as asked. -/
def fileFs (file : List UInt8) : Fs where
  stat := fun _ => .ok ⟨FS_MODE_FILE, file.length⟩
  «open» := fun _ => .ok 1
  read := fun _ _ offset size => .got ((file.drop offset).take size)

theorem fileFs_serves (file : List UInt8) : (fileFs file).Serves file where
  stat_size t st h := by cases h; rfl
  read_got t node_id offset size bytes h := by
    cases h
    exact ⟨List.length_take_le _ _, List.take_prefix _ _⟩
  read_error t node_id offset size rc left h := by cases h

def programFs (page : UInt8) : Fs := fileFs (programFile page)

/-- `usermode_exec("/a.prg", 0, 0)` on a command, which is linked at `0x60000`. -/
def commandCall : ExecCall := ⟨samplePath, [], [], programFs 6, true⟩

/-- The same on a shell, which is linked at `0x80000`. -/
def shellCall : ExecCall := ⟨samplePath, [], [], programFs 8, true⟩

/-- The machines after a boot, with empty memory. -/
def booted32 : Machine Tables32 :=
  started i386 (build_identity_tables_x86 0x200000 Tables32.zero) ⟨0, fun _ => 0, []⟩
def booted64 : Machine Tables64 :=
  started x86_64 (build_identity_tables_x64 ⟨0x200000, 0x201000, 0x202000⟩ Tables64.zero)
    ⟨0, fun _ => 0, []⟩

end System1.Usermode

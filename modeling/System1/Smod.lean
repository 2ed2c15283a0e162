/-
System modules, `src/kernel/core/module/module_core.c`.

A module is an image with an entry function. The kernel checks the image, puts it into
memory and calls the entry, which may register drivers for six services: a UART and a
clock, as single callbacks, and display, input, interrupt controller and floppy
controller, as tables of callbacks. Registrations are staged; they become active when the
entry returns 0 and are dropped when it does not.

Each service is kept in its own static variables: the callbacks use a null pointer for
"nothing", the tables a flag beside them. `Hook` and `Registry` are those variables. The
tables are handed on to the display, input, interrupt and floppy layers, each of which
checks the table again and keeps a pointer to it (`Driver`).

Module code is a parameter of each activation: `Entry` says which registrations the entry
asks for, in which order, and what it returns, and what the `init` callbacks of a display
and an input driver ask for when the kernel calls them after the entry. The bytes of the
image in memory, the table of image addresses and the table of names that
`smod_module_name` reads are left out.
-/
import System1.Base
import System1.Lib.Prog

set_option autoImplicit false

namespace System1.Smod

open System1.Lib

def SMOD_MAX_LOADED : Nat := 16
def SMOD_IO_CHUNK : Nat := 512
def SMOD_HEADER_SIZE : Nat := 32
def SMOD_IMAGE_LIMIT : Nat := 16384
def SMOD_BOOT_ARENA_SIZE : Nat := 16384
def SMOD_FORMAT_VERSION : Nat := 1
def SMOD_API_VERSION : Nat := 3
def SMOD_FLAG_EXECUTABLE : Nat := 1
def SMOD_FLOPPY_MAGIC : Nat := 0x53314D47

/-! ## Tables of callbacks -/

/-- The address of a callback, 0 for a null pointer. -/
abbrev Fn : Type := Nat

/-- `system_display_ops_t`. -/
structure DisplayOps where
  abi : Nat
  init : Fn
  set_color : Fn
  set_cursor : Fn
  get_cursor : Fn
  putc : Fn
  puts : Fn
  hex_u32 : Fn
  text_begin : Fn
  text_putc : Fn
  text_backspace : Fn
  text_left : Fn
  text_right : Fn
  text_delete : Fn
  text_toggle_insert : Fn
  deriving DecidableEq, Repr

/-- `system_input_ops_t`. -/
structure InputOps where
  abi : Nat
  init : Fn
  poll : Fn
  irq_handler : Fn
  set_poll_fallback : Fn
  take_key : Fn
  take_char : Fn
  last_char : Fn
  deriving DecidableEq, Repr

/-- `system_irq_chip_ops_t`. -/
structure IrqChipOps where
  abi : Nat
  remap : Fn
  set_default_masks : Fn
  mask_irq : Fn
  send_eoi : Fn
  init_timer : Fn
  deriving DecidableEq, Repr

/-- `system_floppy_controller_ops_t`. -/
structure FloppyOps where
  abi_version : Nat
  read_sector : Fn
  write_sector : Fn
  reset_state : Fn
  deriving DecidableEq, Repr

/-- The check of a table, made by `smod_register_display` and by `display_register`; the
callback `set_cursor` is not looked at. -/
def DisplayOps.complete (ops : DisplayOps) : Bool :=
  decide (ops.abi = 1 ∧ ops.init ≠ 0 ∧ ops.set_color ≠ 0 ∧ ops.get_cursor ≠ 0 ∧ ops.putc ≠ 0 ∧
    ops.puts ≠ 0 ∧ ops.hex_u32 ≠ 0 ∧ ops.text_begin ≠ 0 ∧ ops.text_putc ≠ 0 ∧
    ops.text_backspace ≠ 0 ∧ ops.text_left ≠ 0 ∧ ops.text_right ≠ 0 ∧ ops.text_delete ≠ 0 ∧
    ops.text_toggle_insert ≠ 0)

def InputOps.complete (ops : InputOps) : Bool :=
  decide (ops.abi = 1 ∧ ops.init ≠ 0 ∧ ops.poll ≠ 0 ∧ ops.irq_handler ≠ 0 ∧
    ops.set_poll_fallback ≠ 0 ∧ ops.take_key ≠ 0 ∧ ops.take_char ≠ 0 ∧ ops.last_char ≠ 0)

def IrqChipOps.complete (ops : IrqChipOps) : Bool :=
  decide (ops.abi = 1 ∧ ops.remap ≠ 0 ∧ ops.set_default_masks ≠ 0 ∧ ops.mask_irq ≠ 0 ∧
    ops.send_eoi ≠ 0 ∧ ops.init_timer ≠ 0)

def FloppyOps.complete (ops : FloppyOps) : Bool :=
  decide (ops.abi_version = 1 ∧ ops.read_sector ≠ 0 ∧ ops.write_sector ≠ 0 ∧ ops.reset_state ≠ 0)

/-! ## The variables -/

/-- `active_uart` and `pending_uart`, or those of the clock. -/
structure Hook where
  active : Fn
  pending : Fn
  deriving DecidableEq, Repr

/-- Where the pointer that a core layer keeps (`active_display` and its like) points: to
nothing, to the table of a built-in driver, or to the `loaded` table of this module. -/
inductive Driver where
  | nothing
  | builtin
  | module
  deriving DecidableEq, Repr

/-- The variables of a service with a table: `loaded_display`, `has_display`,
`pending_display`, `pending_has_display`, and the pointer of its core layer. -/
structure Registry (α : Type) where
  loaded : α
  has : Bool
  pending : α
  pending_has : Bool
  driver : Driver
  deriving DecidableEq, Repr

/-- The static variables of `module_core.c`. `smod_preloaded_names` is the list of its
first `smod_preloaded_count` entries. -/
structure State where
  uart : Hook
  rtc : Hook
  display : Registry DisplayOps
  input : Registry InputOps
  irq_chip : Registry IrqChipOps
  floppy : Registry FloppyOps
  smod_in_entry : Bool
  smod_boot_used : Nat
  smod_loaded_count : Nat
  smod_preloaded_names : List (List UInt8)
  deriving DecidableEq, Repr

/-! ## Registering -/

section

variable {α : Type}

/-- The body shared by the two callbacks. -/
def Hook.register (smod_in_entry : Bool) (f : Fn) (h : Hook) : Bool × Hook :=
  if smod_in_entry = false ∨ f = 0 ∨ h.active ≠ 0 ∨ h.pending ≠ 0 then (false, h)
  else (true, { h with pending := f })

/-- The body shared by the four tables; `ops` is `none` for a null pointer. -/
def Registry.register (complete : α → Bool) (smod_in_entry : Bool) (ops : Option α)
    (r : Registry α) : Bool × Registry α :=
  match ops with
  | none => (false, r)
  | some t =>
    if smod_in_entry = false ∨ complete t = false ∨ r.has = true ∨ r.pending_has = true then
      (false, r)
    else (true, { r with pending := t, pending_has := true })

/-- `if (pending_uart) active_uart = pending_uart; pending_uart = 0;` -/
def Hook.commit (h : Hook) : Hook :=
  ⟨if h.pending ≠ 0 then h.pending else h.active, 0⟩

/-- The commit of a table: copy it, set the flag, and hand it to its core layer, whose
answer is ignored. The staged flag is cleared later. -/
def Registry.commit (core_register : α → Bool) (r : Registry α) : Registry α :=
  if r.pending_has then
    { r with
      loaded := r.pending
      has := true
      driver := if core_register r.pending then .module else r.driver }
  else r

def Registry.clear (r : Registry α) : Registry α := { r with pending_has := false }

end

/-- A registration a module asks for. -/
inductive Register where
  | uart (write_byte : Fn)
  | rtc (read_time : Fn)
  | display (ops : Option DisplayOps)
  | input (ops : Option InputOps)
  | irq_chip (ops : Option IrqChipOps)
  | floppy (ops : Option FloppyOps)
  deriving DecidableEq, Repr

def smod_register_uart (s : State) (write_byte : Fn) : Bool × State :=
  ((s.uart.register s.smod_in_entry write_byte).1,
    { s with uart := (s.uart.register s.smod_in_entry write_byte).2 })

def smod_register_rtc (s : State) (read_time : Fn) : Bool × State :=
  ((s.rtc.register s.smod_in_entry read_time).1,
    { s with rtc := (s.rtc.register s.smod_in_entry read_time).2 })

def smod_register_display (s : State) (ops : Option DisplayOps) : Bool × State :=
  ((s.display.register DisplayOps.complete s.smod_in_entry ops).1,
    { s with display := (s.display.register DisplayOps.complete s.smod_in_entry ops).2 })

def smod_register_input (s : State) (ops : Option InputOps) : Bool × State :=
  ((s.input.register InputOps.complete s.smod_in_entry ops).1,
    { s with input := (s.input.register InputOps.complete s.smod_in_entry ops).2 })

def smod_register_irq_chip (s : State) (ops : Option IrqChipOps) : Bool × State :=
  ((s.irq_chip.register IrqChipOps.complete s.smod_in_entry ops).1,
    { s with irq_chip := (s.irq_chip.register IrqChipOps.complete s.smod_in_entry ops).2 })

def smod_register_floppy (s : State) (ops : Option FloppyOps) : Bool × State :=
  ((s.floppy.register FloppyOps.complete s.smod_in_entry ops).1,
    { s with floppy := (s.floppy.register FloppyOps.complete s.smod_in_entry ops).2 })

/-- The functions of `smod_api`: whether 0 is returned, and the state. -/
def smod_register (s : State) : Register → Bool × State
  | .uart f => smod_register_uart s f
  | .rtc f => smod_register_rtc s f
  | .display ops => smod_register_display s ops
  | .input ops => smod_register_input s ops
  | .irq_chip ops => smod_register_irq_chip s ops
  | .floppy ops => smod_register_floppy s ops

/-- Module code that makes these calls in turn: the calls that returned 0, and the state. -/
def runCalls : State → List Register → List Register × State
  | s, [] => ([], s)
  | s, c :: rest =>
    let r := smod_register s c
    let t := runCalls r.2 rest
    (if r.1 then c :: t.1 else t.1, t.2)

/-! ## Activation -/

/-- What the code of a module does: the calls and the return code of its entry, and the
calls that its `init` callbacks make. -/
structure Entry where
  calls : List Register
  rc : Int
  display_init : List Register
  input_init : List Register

/-- `pending_uart = 0; ...; pending_has_irq_chip = pending_has_floppy = 0u;` -/
def State.clearPending (s : State) : State :=
  { s with
    uart := { s.uart with pending := 0 }
    rtc := { s.rtc with pending := 0 }
    display := s.display.clear
    input := s.input.clear
    irq_chip := s.irq_chip.clear
    floppy := s.floppy.clear }

/-- The state in which the entry starts. -/
def entered (s : State) : State := { s.clearPending with smod_in_entry := true }

/-- `if (pending_has_display) { ...; loaded_display.init(); }` -/
def commitDisplay (entry : Entry) (s : State) : State :=
  if s.display.pending_has then
    (runCalls { s with display := s.display.commit DisplayOps.complete } entry.display_init).2
  else s

def commitInput (entry : Entry) (s : State) : State :=
  if s.input.pending_has then
    (runCalls { s with input := s.input.commit InputOps.complete } entry.input_init).2
  else s

/-- What `smod_activate` does after an entry that returned 0. -/
def commitAll (entry : Entry) (from_arena : Bool) (aligned_size : Nat) (s : State) : State :=
  let s :=
    if from_arena then { s with smod_boot_used := u32 (s.smod_boot_used + aligned_size) } else s
  let s := { s with uart := s.uart.commit, rtc := s.rtc.commit }
  let s := commitInput entry (commitDisplay entry s)
  let s := { s with
    irq_chip := s.irq_chip.commit IrqChipOps.complete
    floppy := s.floppy.commit FloppyOps.complete }
  { s with
    display := s.display.clear
    input := s.input.clear
    irq_chip := s.irq_chip.clear
    floppy := s.floppy.clear
    smod_loaded_count := u32 (s.smod_loaded_count + 1) }

def smod_activate (s : State) (entry : Entry) (from_arena : Bool) (aligned_size : Nat) :
    Bool × State :=
  let s := { (runCalls (entered s) entry.calls).2 with smod_in_entry := false }
  if entry.rc ≠ 0 then (false, s.clearPending)
  else (true, commitAll entry from_arena aligned_size s)

/-! ## Loading -/

def smod_u16 (p : List UInt8) (i : Nat) : Nat := le16 (p.getD i 0) (p.getD (i + 1) 0)

def smod_u32 (p : List UInt8) (i : Nat) : Nat :=
  le32 (p.getD i 0) (p.getD (i + 1) 0) (p.getD (i + 2) 0) (p.getD (i + 3) 0)

/-- The sizes in a header: code, memory and the offset of the entry. -/
structure Sizes where
  code : Nat
  memory : Nat
  entry : Nat
  deriving DecidableEq, Repr

/-- `smod_validate` for the machine `arch`, on a header and the size of the file. -/
def smod_validate (arch : Nat) (hdr : List UInt8) (bytes : Nat) : Option Sizes :=
  if bytes < SMOD_HEADER_SIZE ∨ bytes > SMOD_HEADER_SIZE + SMOD_IMAGE_LIMIT then none
  else
    let code := smod_u32 hdr 16
    let mem := smod_u32 hdr 20
    let entry := smod_u32 hdr 24
    if hdr.take 4 ≠ [0x53, 0x4D, 0x4F, 0x44] ∨ smod_u16 hdr 4 ≠ SMOD_FORMAT_VERSION ∨
        smod_u16 hdr 6 ≠ SMOD_API_VERSION ∨ smod_u16 hdr 8 ≠ arch ∨
        smod_u16 hdr 10 ≠ SMOD_FLAG_EXECUTABLE ∨ smod_u32 hdr 12 ≠ SMOD_HEADER_SIZE ∨
        smod_u32 hdr 28 ≠ 0 ∨ code = 0 ∨ code > SMOD_IMAGE_LIMIT ∨ mem < code ∨
        mem > SMOD_IMAGE_LIMIT ∨ entry ≥ code ∨ bytes ≠ SMOD_HEADER_SIZE + code then none
    else some ⟨code, mem, entry⟩

def smod_char_lower (c : UInt8) : UInt8 := if 0x41 ≤ c ∧ c ≤ 0x5A then c + 0x20 else c

/-- Names of preloaded modules are compared without case. -/
def smod_name_already_loaded (s : State) (name : CString) : Bool :=
  s.smod_preloaded_names.any fun p =>
    decide (p.map smod_char_lower = name.bytes.map smod_char_lower)

def alignedSize (memory_size : Nat) : Nat := (memory_size + 15) / 16 * 16

section

variable (arch : Nat) (entry : Entry)

def smod_core_preload (s : State) (file : List UInt8) (name : CString) : Bool × State :=
  if s.smod_loaded_count ≥ SMOD_MAX_LOADED ∨ s.smod_preloaded_names.length ≥ SMOD_MAX_LOADED ∨
      smod_name_already_loaded s name = true then (false, s)
  else
    match smod_validate arch file file.length with
    | none => (false, s)
    | some sizes =>
      if name.bytes.length = 0 ∨ name.bytes.length ≥ FS_NAME_CAP then (false, s)
      else if alignedSize sizes.memory > u32_sub SMOD_BOOT_ARENA_SIZE s.smod_boot_used then
        (false, s)
      else
        let r := smod_activate s entry true (alignedSize sizes.memory)
        if r.1 = false then (false, r.2)
        else (true, { r.2 with smod_preloaded_names := r.2.smod_preloaded_names ++ [name.bytes] })

/-- What loading a module file asks for. -/
inductive Req where
  | fs_core_open (path : CString)
  | fs_core_fstat (id : Nat)
  | fs_core_read (id offset size : Nat)
  | fs_core_close (id : Nat)
  | kmalloc (size : Nat)
  | kfree

/-- The answers; `none` is an error code, and `kmalloc` says whether it has memory. -/
@[reducible] def Resp : Req → Type
  | .fs_core_open _ => Option Nat
  | .fs_core_fstat _ => Option FsStat
  | .fs_core_read _ _ _ => Option (List UInt8)
  | .fs_core_close _ => Unit
  | .kmalloc _ => Bool
  | .kfree => Unit

/-- Loading programs; the error is -1. -/
abbrev M (α : Type) : Type := Prog Resp Unit α

def ask (r : Req) : M (Resp r) := .call r .done

/-- The loop of `smod_read_exact`. -/
def smod_read_exact_loop (id offset size done : Nat) (data : List UInt8) : M (List UInt8) :=
  if _hlt : done < size then do
    let chunk := min (size - done) SMOD_IO_CHUNK
    match ← ask (.fs_core_read id (u32 (offset + done)) chunk) with
    | none => .fail ()
    | some bytes =>
      if _hbad : bytes.length = 0 ∨ bytes.length > chunk then .fail ()
      else smod_read_exact_loop id offset size (done + bytes.length) (data ++ bytes)
  else .done data
termination_by size - done
decreasing_by omega

def smod_read_exact (id offset size : Nat) : M (List UInt8) :=
  smod_read_exact_loop id offset size 0 []

/-- `(void)fs_core_close(id); return -1;` -/
def closeAndFail {α : Type} (id : Nat) : M α := do
  ask (.fs_core_close id)
  .fail ()

/-- A module in memory: whether it is in the arena, and the room it takes there. -/
structure Loaded where
  lowmem_arena : Bool
  aligned_size : Nat

/-- The second half of `smod_core_load_file`, from the memory on: read the code. -/
def readCode (id : Nat) (sizes : Sizes) (lowmem_arena : Bool) (aligned_size : Nat) : M Loaded := do
  let r ← (smod_read_exact id SMOD_HEADER_SIZE sizes.code).attempt
  ask (.fs_core_close id)
  match r with
  | .error _ =>
    if lowmem_arena = false then
      ask .kfree
    .fail ()
  | .ok _ => .done ⟨lowmem_arena, aligned_size⟩

/-- `smod_core_load_file` up to the activation. -/
def readModule (smod_boot_used : Nat) (path : CString) (boot_magic : Nat) : M Loaded := do
  match ← ask (.fs_core_open path) with
  | none => .fail ()
  | some id =>
    match ← ask (.fs_core_fstat id) with
    | none => closeAndFail id
    | some st =>
      if st.mode &&& FS_MODE_FILE = 0 ∨ st.size < SMOD_HEADER_SIZE ∨
          st.size > SMOD_HEADER_SIZE + SMOD_IMAGE_LIMIT then closeAndFail id
      else
        match ← (smod_read_exact id 0 SMOD_HEADER_SIZE).attempt with
        | .error _ => closeAndFail id
        | .ok hdr =>
          match smod_validate arch hdr st.size with
          | none => closeAndFail id
          | some sizes =>
            if boot_magic = SMOD_FLOPPY_MAGIC then
              if alignedSize sizes.memory > u32_sub SMOD_IMAGE_LIMIT smod_boot_used then
                closeAndFail id
              else readCode id sizes true (alignedSize sizes.memory)
            else
              match ← ask (.kmalloc sizes.memory) with
              | false => closeAndFail id
              | true => readCode id sizes false 0

def smod_core_load_file (s : State) (path : CString) (boot_magic : Nat) : M (Bool × State) :=
  if s.smod_loaded_count ≥ SMOD_MAX_LOADED then .done (false, s)
  else do
    match ← (readModule arch s.smod_boot_used path boot_magic).attempt with
    | .error _ => .done (false, s)
    | .ok m =>
      let r := smod_activate s entry m.lowmem_arena m.aligned_size
      if r.1 = false ∧ m.lowmem_arena = false then
        ask .kfree
      .done r

end

end System1.Smod

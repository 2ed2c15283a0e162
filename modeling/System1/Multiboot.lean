/-
The two walks over the Multiboot2 boot information: `smod_boot_early_init` of
`module_early_core.c` (the build without `SYSTEM1_FLOPPY_BOOT`), which preloads the modules
named `smod:...`, and `fs_install_mb2_module_device` of `fs_core.c`, which makes the module
`rootfs` the root block device.

Memory is a parameter and the walks keep a log: the bytes they read, the names they hand on
as strings, and the module ranges they hand on. A walk goes from tag to tag by the size the
tag gives itself; nothing is known about these sizes. What keeps it inside the boot
information is that the size of a tag is compared with what is left of the total before
anything behind its first eight bytes is read, and what ends it is that a size is at least
eight, so that the rounded step moves the offset towards the total. That is the termination
measure of `walkTags`, the one loop that both walks are instances of.
-/
import System1.Lib.Logged
import System1.Smod

set_option autoImplicit false

namespace System1.Multiboot

open System1.Lib System1.Lib.Logged
open System1.Smod (SMOD_HEADER_SIZE SMOD_IMAGE_LIMIT)

def MB2_MAGIC : Nat := 0x36D76289
def MB2_MODULE_TAG : Nat := 3
def MB2_MAX_INFO : Nat := 65536
def SMOD_BOOT_TAG_LIMIT : Nat := 128

/-- What a walk does with memory: it reads a byte, has a string written to the serial port,
or hands on a module, by name to `smod_core_preload` or as the root device. -/
inductive Access where
  | read (addr : Nat)
  | trace (name : Nat)
  | preload (start bytes name : Nat)
  | root (start bytes : Nat)

instance : ReadEvent Access := ⟨.read⟩

abbrev Walk (α : Type) : Type := Logged Access α

section

variable (mem : Nat → UInt8)

def smod_prefix (data max_bytes : Nat) : Walk Bool := do
  if max_bytes < 6 then return false
  else if ← equals mem data [0x73, 0x6d, 0x6f, 0x64, 0x3a] then
    let b ← read8 mem (data + 5)
    return decide (b ≠ 0)
  else return false

/-- The loop that looks for the NUL of a name, with the number of bytes it may still look
at; it gives the index it stopped at. -/
def nameEnd (cmdline : Nat) : Nat → Nat → Walk Nat
  | 0, i => return i
  | left + 1, i => do
    let b ← read8 mem (cmdline + i)
    if b = 0 then return i else nameEnd cmdline left (i + 1)

/-- `while (off <= total - 8)` over the tags. `enter` is the rest of the loop's condition,
`visit` the treatment of a module tag that is long enough for a name of six bytes; it may
return from the function. -/
def walkTags {σ ρ : Type} (info total : Nat) (enter : σ → Option σ)
    (visit : (tag size : Nat) → σ → Walk (Except ρ σ)) (off : Nat) (s : σ) :
    Walk (Except ρ σ) := do
  if off > total - 8 then return .ok s
  else
    match enter s with
    | none => return .ok s
    | some s =>
      let size ← read32 mem (info + off + 4)
      if _hsize : size < 8 ∨ size > total - off then return .ok s
      else
        let type ← read32 mem (info + off)
        if type = 0 then return .ok s
        else
          match ← (if type = MB2_MODULE_TAG ∧ size ≥ 16 + 7 then visit (info + off) size s
              else return .ok s) with
          | .error r => return .error r
          | .ok s =>
            if _hwrap : size > 0xFFFFFFF8 then return .ok s
            else
              let step := u32 (size + 7) / 8 * 8
              if _hstep : step > total - off then return .ok s
              else walkTags info total enter visit (off + step) s
termination_by total - off
decreasing_by
  have hround : u32 (size + 7) = size + 7 := u32_of_lt (by omega)
  omega

/-- Both functions look at the total before they walk. -/
def withTotal {α : Type} (magic info limit : Nat) (fail : α) (walk : Nat → Walk α) : Walk α := do
  if magic ≠ MB2_MAGIC ∨ info = 0 ∨ info ≥ limit ∨ limit - info < 16 then return fail
  else
    let total ← read32 mem info
    if total < 16 ∨ total > MB2_MAX_INFO ∨ total > limit - info then return fail
    else walk total

/-- One module of `smod_boot_early_init`; the state is `(seen, loaded)`, and `preloaded`
says whether `smod_core_preload` returns 0 after what has happened so far. -/
def earlyModule (preloaded : List Access → Bool) (limit tag size : Nat) (s : Nat × Nat) :
    Walk (Except Empty (Nat × Nat)) := do
  let cmdline := tag + 16
  let text_bytes := size - 16
  if ← smod_prefix mem cmdline text_bytes then
    let i ← nameEnd mem cmdline (min text_bytes (5 + 24) - 5) 5
    let start ← read32 mem (tag + 8)
    let stop ← read32 mem (tag + 12)
    if i < text_bytes ∧ i < 5 + 24 ∧ stop > start ∧ stop - start ≥ SMOD_HEADER_SIZE ∧
        stop - start ≤ SMOD_HEADER_SIZE + SMOD_IMAGE_LIMIT ∧ start < limit ∧ stop ≤ limit then
      note (.trace (cmdline + 5))
      note (.preload start (stop - start) (cmdline + 5))
      let rc ← modifyGet fun log => (preloaded log, log)
      note (.trace (cmdline + 5))
      return .ok (s.1, if rc then s.2 + 1 else s.2)
    else return .ok s
  else return .ok s

/-- It returns the number of modules preloaded. -/
def smod_boot_early_init (preloaded : List Access → Bool) (magic info_ptr limit : Nat) :
    Walk Nat :=
  withTotal mem magic info_ptr limit 0 fun total => do
    match ← walkTags mem info_ptr total
        (fun s => if s.1 < SMOD_BOOT_TAG_LIMIT then some (s.1 + 1, s.2) else none)
        (earlyModule mem preloaded limit) 8 (0, 0) with
    | .ok (_, loaded) => return loaded
    | .error e => nomatch e

/-- One module of `fs_install_mb2_module_device`, which returns when it is the root. -/
def rootModule (limit tag _size : Nat) (s : Unit) : Walk (Except Unit Unit) := do
  let begin_ ← read32 mem (tag + 8)
  let last ← read32 mem (tag + 12)
  if ← equals mem (tag + 16) [0x72, 0x6f, 0x6f, 0x74, 0x66, 0x73, 0] then
    if last > begin_ ∧ begin_ < limit ∧ last ≤ limit ∧ last - begin_ ≥ 2048 then
      note (.root begin_ (last - begin_))
      return .error ()
    else return .ok s
  else return .ok s

/-- A root device has been installed, or why not. -/
def fs_install_mb2_module_device (magic info_ptr limit : Nat) : Walk (Except FsErr Unit) :=
  withTotal mem magic info_ptr limit (.error .INVALID) fun total => do
    match ← walkTags mem info_ptr total some (rootModule mem limit) 8 () with
    | .ok () => return .error .NOT_FOUND
    | .error () => return .ok ()

end

/-! ## The boot information -/

/-- Four bytes of memory as a number. -/
def word (mem : Nat → UInt8) (a : Nat) : Nat :=
  le32 (mem a) (mem (a + 1)) (mem (a + 2)) (mem (a + 3))

/-- The total that the boot information gives for itself. -/
def total (mem : Nat → UInt8) (info : Nat) : Nat := word mem info

/-- The tags follow each other by their sizes, rounded up to eight. -/
inductive TagAt (mem : Nat → UInt8) (info : Nat) : Nat → Prop
  | first : TagAt mem info (info + 8)
  | next {tag : Nat} : TagAt mem info tag → TagAt mem info (tag + (word mem (tag + 4) + 7) / 8 * 8)

theorem TagAt.le {mem : Nat → UInt8} {info tag : Nat} (h : TagAt mem info tag) :
    info + 8 ≤ tag := by
  induction h with
  | first => exact Nat.le_refl _
  | next _ ih => omega

/-- A module tag that lies in the boot information and has room for a name of six bytes. -/
structure ModuleTag (mem : Nat → UInt8) (info tag size : Nat) : Prop where
  tagAt : TagAt mem info tag
  type : word mem tag = MB2_MODULE_TAG
  size_eq : size = word mem (tag + 4)
  inside : tag + size ≤ info + total mem info
  long : 23 ≤ size

/-! ## What a walk logs -/

/-- Asking what a log leads to logs nothing. -/
theorem logs_modifyGet {α : Type} {P : Access → Prop} (g : List Access → α) :
    Logs P (fun _ => True) (modifyGet fun log => (g log, log)) := fun _ hlog => ⟨trivial, hlog⟩

section

variable {mem : Nat → UInt8} {P : Access → Prop} {lo hi : Nat}

section

variable (hP : MayRead P lo hi)

include hP

/-- A name that begins with `smod:` has a character behind it. -/
theorem logs_prefixTest {data max_bytes : Nat} (hlo : lo ≤ data) (hhi : data + max_bytes ≤ hi) :
    Logs P (fun b => b = true → mem (data + 5) ≠ 0) <| smod_prefix mem data max_bytes := by
  unfold smod_prefix
  split
  · exact .pure fun h => by cases h
  refine (logs_equals hP hlo (by simp; omega)).bind fun b _ => ?_
  cases b with
  | false => exact .pure fun h => by cases h
  | true =>
    refine (logs_read8 hP (by omega) (by omega)).bind fun c hc => .pure fun h => ?_
    rw [← hc]
    exact of_decide_eq_true h

/-- Where the loop stops before its bound there is a NUL, the first one. -/
theorem logs_nameEnd {cmdline left i : Nat} (hlo : lo ≤ cmdline) (hhi : cmdline + i + left ≤ hi) :
    Logs P (fun j => i ≤ j ∧ (j < i + left → mem (cmdline + j) = 0) ∧
      ∀ k, i ≤ k → k < j → mem (cmdline + k) ≠ 0) (nameEnd mem cmdline left i) := by
  induction left generalizing i with
  | zero => exact .pure ⟨Nat.le_refl i, fun h => absurd h (by omega), fun k _ _ => by omega⟩
  | succ left ih =>
    refine (logs_read8 hP (by omega) (by omega)).bind fun b hb => ?_
    split
    · next hz => exact .pure ⟨Nat.le_refl i, fun _ => hb ▸ hz, fun k _ _ => by omega⟩
    next hz =>
    grind

end

/-- The loop reads the head of a tag that has room for one, and visits a module tag that
lies in the boot information. -/
theorem logs_walkTags {σ ρ : Type} {info : Nat} (hP : MayRead P info (info + total mem info))
    {enter : σ → Option σ} {visit : (tag size : Nat) → σ → Walk (Except ρ σ)}
    (hvisit : ∀ tag size s, ModuleTag mem info tag size →
      Logs P (fun _ => True) (visit tag size s))
    {off : Nat} (hoff : TagAt mem info (info + off)) (s : σ) :
    Logs P (fun _ => True) (walkTags mem info (total mem info) enter visit off s) := by
  induction h : total mem info - off using Nat.strongRecOn generalizing off s with
  | ind n ih =>
    subst h
    have hle := hoff.le
    rw [walkTags]
    split
    · exact .pure trivial
    split
    · exact .pure trivial
    next s' _ =>
    refine (logs_read32 hP (by omega) (by omega)).bind fun size hword => ?_
    split
    · exact .pure trivial
    refine (logs_read32 hP (by omega) (by omega)).bind fun type htype => ?_
    split
    · exact .pure trivial
    refine Logs.bind (V := fun _ => True) ?_ fun r _ => ?_
    · split
      · next hmodule =>
        exact hvisit _ _ _ ⟨hoff, htype.symm.trans hmodule.1, hword, by omega, by omega⟩
      · exact .pure trivial
    · cases r with
      | error r => exact .pure trivial
      | ok s'' =>
        dsimp only
        split
        · exact .pure trivial
        split
        · exact .pure trivial
        · have hround : u32 (size + 7) = size + 7 := u32_of_lt (by omega)
          refine ih _ (by omega) ?_ s'' rfl
          rw [hround, ← Nat.add_assoc, hword]
          exact hoff.next

end

/-! ## The walks -/

/-- The total has passed the checks. -/
def Checked (mem : Nat → UInt8) (info limit : Nat) : Prop :=
  16 ≤ total mem info ∧ total mem info ≤ MB2_MAX_INFO ∧ info + total mem info ≤ limit

/-- The string at `name` stands in a module tag, behind the sixteen bytes of its head and
`smod:`. It has between 1 and 23 characters, and its NUL lies inside the tag. -/
def Named (mem : Nat → UInt8) (info name : Nat) : Prop :=
  ∃ tag size len, ModuleTag mem info tag size ∧ name = tag + 16 + 5 ∧
    name + len < tag + size ∧ 1 ≤ len ∧ len ≤ 23 ∧ mem (name + len) = 0 ∧
    ∀ k < len, mem (name + k) ≠ 0

/-- An access in bounds. The total itself is read before it can be checked. -/
def InBounds (mem : Nat → UInt8) (info limit : Nat) : Access → Prop
  | .read a => info ≤ a ∧ a < limit ∧
      (a < info + 4 ∨ (Checked mem info limit ∧ a < info + total mem info))
  | .trace name => Checked mem info limit ∧ Named mem info name
  | .preload start bytes name => 0 < bytes ∧ start + bytes ≤ limit ∧
      Checked mem info limit ∧ Named mem info name
  | .root start bytes => 0 < bytes ∧ start + bytes ≤ limit

section

variable {mem : Nat → UInt8} {info limit : Nat}

theorem Checked.mayRead (h : Checked mem info limit) :
    MayRead (InBounds mem info limit) info (info + total mem info) := fun _ hlo hhi =>
  ⟨hlo, Nat.lt_of_lt_of_le hhi h.2.2, .inr ⟨h, hhi⟩⟩

/-- Behind the check of the total size the walk may read. -/
theorem logs_withTotal {α : Type} {magic : Nat} {fail : α} {walk : Nat → Walk α}
    (hwalk : Checked mem info limit →
      Logs (InBounds mem info limit) (fun _ => True) (walk (total mem info))) :
    Logs (InBounds mem info limit) (fun _ => True) (withTotal mem magic info limit fail walk) := by
  unfold withTotal
  split
  · exact .pure trivial
  have hP : MayRead (InBounds mem info limit) info (info + 4) := fun a hlo hhi =>
    ⟨hlo, by omega, .inl hhi⟩
  refine (logs_read32 hP (Nat.le_refl _) (Nat.le_refl _)).bind fun n hn => ?_
  subst hn
  split
  · exact .pure trivial
  next hbad =>
  rw [not_or, not_or] at hbad
  exact hwalk
    ⟨by unfold total word; omega, by unfold total word; omega, by unfold total word; omega⟩

/-- The name of a module is looked at only as far as its tag goes. -/
theorem logs_earlyModule (h : Checked mem info limit) (preloaded : List Access → Bool)
    (tag size : Nat) (s : Nat × Nat) (hmodule : ModuleTag mem info tag size) :
    Logs (InBounds mem info limit) (fun _ => True)
      (earlyModule mem preloaded limit tag size s) := by
  have hP := h.mayRead
  have htag := hmodule.tagAt.le
  have hend := hmodule.inside
  have hsize := hmodule.long
  refine (logs_prefixTest hP (by omega) (by omega)).bind fun b hb => ?_
  cases b with
  | false => exact .pure trivial
  | true =>
    refine (logs_nameEnd hP (by omega) (by omega)).bind fun i hi => ?_
    refine (logs_read32 hP (by omega) (by omega)).bind fun start _ => ?_
    refine (logs_read32 hP (by omega) (by omega)).bind fun stop _ => ?_
    split
    · next hok =>
      obtain ⟨htext, hcap, hlt, -, -, -, hlimit⟩ := hok
      have hname : Named mem info (tag + 16 + 5) := by
        have hnul := hi.2.1 (by omega)
        have hfirst : i ≠ 5 := fun h5 => hb rfl (h5 ▸ hnul)
        refine ⟨tag, size, i - 5, hmodule, rfl, by omega, by omega, by omega, ?_, ?_⟩
        · rwa [show tag + 16 + 5 + (i - 5) = tag + 16 + i by omega]
        · intro k hk
          rw [show tag + 16 + 5 + k = tag + 16 + (5 + k) by omega]
          exact hi.2.2 _ (by omega) (by omega)
      refine (Logs.note (e := Access.trace _) ⟨h, hname⟩).bind fun _ _ => ?_
      refine (Logs.note (e := Access.preload _ _ _)
        ⟨by omega, by omega, h, hname⟩).bind fun _ _ => ?_
      refine (logs_modifyGet _).bind fun rc _ => ?_
      exact (Logs.note (e := Access.trace _) ⟨h, hname⟩).bind fun _ _ => .pure trivial
    · exact .pure trivial

/-- The module's bounds are checked before it is used. -/
theorem logs_rootModule (h : Checked mem info limit) (tag size : Nat) (s : Unit)
    (hmodule : ModuleTag mem info tag size) :
    Logs (InBounds mem info limit) (fun _ => True) (rootModule mem limit tag size s) := by
  have hP := h.mayRead
  have htag := hmodule.tagAt.le
  have hend := hmodule.inside
  have hsize := hmodule.long
  refine (logs_read32 hP (by omega) (by omega)).bind fun begin_ _ => ?_
  refine (logs_read32 hP (by omega) (by omega)).bind fun last _ => ?_
  refine (logs_equals hP (by omega) (by simp; omega)).bind fun b _ => ?_
  cases b with
  | false => exact .pure trivial
  | true =>
    rw [if_pos rfl]
    split
    · exact (Logs.note (e := Access.root _ _) ⟨by omega, by omega⟩).bind fun _ _ => .pure trivial
    · exact .pure trivial

end

/-- **Bounded walks.** Whatever is in memory, both walks end, and everything they read or
hand on is in bounds. -/
theorem walks_bounded (mem : Nat → UInt8) (preloaded : List Access → Bool)
    (magic info limit : Nat) :
    (∀ e ∈ ((smod_boot_early_init mem preloaded magic info limit).run []).2,
      InBounds mem info limit e) ∧
    ∀ e ∈ ((fs_install_mb2_module_device mem magic info limit).run []).2,
      InBounds mem info limit e := by
  constructor
  · refine (logs_withTotal fun h => ?_ : Logs _ (fun _ => True) _) [] (by simp) |>.2
    refine (logs_walkTags h.mayRead (logs_earlyModule h preloaded) .first _).bind fun r _ => ?_
    cases r with
    | ok s => exact .pure trivial
    | error e => nomatch e
  · refine (logs_withTotal fun h => ?_ : Logs _ (fun _ => True) _) [] (by simp) |>.2
    refine (logs_walkTags h.mayRead (logs_rootModule h) .first _).bind fun r _ => ?_
    cases r with
    | ok s => exact .pure trivial
    | error e => exact .pure trivial

end System1.Multiboot

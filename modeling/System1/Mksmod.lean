/-
The module packer, `tools/mksmod.py`, and the check the kernel makes of its output.

A module file is a header of ten little-endian fields and an image. The header is checked
twice, by programs in two languages: `parse` when the file is packed, `smod_validate` when
it is loaded. They ask for the same fields in a different order and with differently put
bounds. `smod_validate` refuses a file that is too long before it looks at a field, where
`parse` has no such test and finds the length wrong at the end; `parse` has two tests of
the architecture, of which the second is only needed when no architecture is asked for.

`struct` reads and writes integers of any width; the lemmas about it are here as well. The
argument parser, the files and the run of `nm` are left out: `pack` takes the bytes of the
image and the two symbols that were found in the linked file.
-/
import System1.Smod
import Mathlib.Data.List.GetD

set_option autoImplicit false

namespace System1.Mksmod

open System1.Smod List

/-! ## `struct` -/

/-- An unsigned integer, low byte first. -/
def unpackUint : List UInt8 → Nat
  | [] => 0
  | b :: rest => b.toNat + 2 ^ 8 * unpackUint rest

def packUint : Nat → Nat → List UInt8
  | 0, _ => []
  | n + 1, v => UInt8.ofNat v :: packUint n (v / 2 ^ 8)

/-- The bytes of a field. -/
def field (data : List UInt8) (offset size : Nat) : List UInt8 := (data.drop offset).take size

@[simp] theorem length_packUint (n v : Nat) : (packUint n v).length = n := by
  induction n generalizing v with
  | zero => rfl
  | succ n ih => rw [packUint, length_cons, ih]

theorem unpackUint_packUint {n v : Nat} (h : v < 2 ^ (8 * n)) : unpackUint (packUint n v) = v := by
  induction n generalizing v with
  | zero =>
    simp only [Nat.mul_zero, Nat.pow_zero, Nat.lt_one_iff] at h
    rw [h]
    rfl
  | succ n ih => grind [Nat.pow_add, packUint, unpackUint, UInt8.toNat_ofNat']

/-- The field that stands first, and one behind it. -/
theorem field_first {l : List UInt8} {size : Nat} (hl : l.length = size) (rest : List UInt8) :
    field (l ++ rest) 0 size = l := by
  subst hl
  exact take_left

theorem field_skip {l : List UInt8} {w offset : Nat} (hl : l.length = w) (h : w ≤ offset)
    (rest : List UInt8) (size : Nat) :
    field (l ++ rest) offset size = field rest (offset - w) size := by
  subst hl
  unfold field
  rw [drop_append, drop_of_length_le h, nil_append]

/-- A field byte by byte; beyond the end of the data there are zeros. -/
theorem unpackUint_field_succ (data : List UInt8) (offset n : Nat) :
    unpackUint (field data offset (n + 1)) =
      (data.getD offset 0).toNat + 2 ^ 8 * unpackUint (field data (offset + 1) n) := by
  unfold field
  by_cases hin : offset < data.length
  · rw [drop_eq_getElem_cons hin, take_succ_cons, unpackUint,
      getD_eq_getElem _ _ hin]
  rw [drop_of_length_le (by omega), drop_of_length_le (by omega), take_nil,
    take_nil, getD_eq_default _ _ (by omega)]
  rfl

/-- Two bytes as the kernel reads them. -/
theorem unpackUint_two (data : List UInt8) (offset : Nat) :
    unpackUint (field data offset 2) = smod_u16 data offset := by
  rw [unpackUint_field_succ, unpackUint_field_succ]
  rfl

/-- Four bytes as the kernel reads them. -/
theorem unpackUint_four (data : List UInt8) (offset : Nat) :
    unpackUint (field data offset 4) = smod_u32 data offset := by
  rw [unpackUint_field_succ, unpackUint_field_succ, unpackUint_field_succ, unpackUint_field_succ]
  have hend : unpackUint (field data (offset + 1 + 1 + 1 + 1) 0) = 0 := by
    unfold field
    rw [take_zero]
    rfl
  rw [hend]
  unfold smod_u32 le32
  simp only [Nat.add_assoc, Nat.reduceAdd]
  omega

/-! ## The packer -/

/-- `ARCH`. -/
inductive Arch where
  | i386
  | x86_64
  deriving DecidableEq, Repr

def ARCH : Arch → Nat
  | .i386 => 1
  | .x86_64 => 2

/-- `smod_machine_arch` of a kernel built for the architecture. -/
def smod_machine_arch : Arch → Nat
  | .i386 => 1
  | .x86_64 => 2

/-- `SMOD` -/
def MAGIC : List UInt8 := [0x53, 0x4D, 0x4F, 0x44]

def FMT_VERSION : Nat := 1
def API_VERSION : Nat := 3
def LIMIT : Nat := 16384

/-- The fields of `struct.Struct("<4sHHHHIIIII")`. -/
structure Header where
  magic : List UInt8
  version : Nat
  abi : Nat
  target : Nat
  flags : Nat
  offset : Nat
  size : Nat
  memory : Nat
  entry : Nat
  reserved : Nat
  deriving DecidableEq, Repr

/-- `HEADER.size`. -/
def HEADER_SIZE : Nat := 32

/-- `HEADER.unpack_from`. -/
def unpack_from (data : List UInt8) : Header where
  magic := field data 0 4
  version := unpackUint (field data 4 2)
  abi := unpackUint (field data 6 2)
  target := unpackUint (field data 8 2)
  flags := unpackUint (field data 10 2)
  offset := unpackUint (field data 12 4)
  size := unpackUint (field data 16 4)
  memory := unpackUint (field data 20 4)
  entry := unpackUint (field data 24 4)
  reserved := unpackUint (field data 28 4)

/-- `HEADER.pack`. -/
def Header.pack (h : Header) : List UInt8 :=
  h.magic ++ (packUint 2 h.version ++ (packUint 2 h.abi ++ (packUint 2 h.target ++
    (packUint 2 h.flags ++ (packUint 4 h.offset ++ (packUint 4 h.size ++ (packUint 4 h.memory ++
      (packUint 4 h.entry ++ packUint 4 h.reserved))))))))

/-- What `parse` returns. -/
structure Info where
  arch : Nat
  image : Nat
  memory : Nat
  entry : Nat
  deriving DecidableEq, Repr

/-- An error is the text of the `ValueError`. -/
def parse (data : List UInt8) (arch : Option Arch) : Except String Info :=
  if data.length < HEADER_SIZE then .error "truncated SMOD header"
  else
    let h := unpack_from data
    if h.magic ≠ MAGIC ∨ h.version ≠ FMT_VERSION ∨ h.abi ≠ API_VERSION then
      .error "invalid magic or version"
    else if arch.any (fun a => h.target ≠ ARCH a) then .error "wrong architecture"
    else if h.target ∉ [ARCH .i386, ARCH .x86_64] ∨ h.flags ≠ 1 ∨ h.offset ≠ HEADER_SIZE ∨
        h.reserved ≠ 0 then .error "invalid flags, architecture or header"
    else if ¬ (0 < h.size ∧ h.size ≤ LIMIT) ∨ ¬ (h.size ≤ h.memory ∧ h.memory ≤ LIMIT) ∨
        h.entry ≥ h.size then .error "invalid image size or entry"
    else if data.length ≠ h.offset + h.size then .error "truncated or oversized image"
    else .ok ⟨h.target, h.size, h.memory, h.entry⟩

/-- The symbols `__smod_mem_end` and `__smod_file_end`, if `nm` lists them. -/
structure ElfSymbols where
  mem_end : Option Nat
  file_end : Option Nat

/-- The memory the module asks for: that of the linked file, or no more than the image. -/
def memorySize (image : List UInt8) : Option ElfSymbols → Except String Nat
  | none => .ok image.length
  | some ⟨some mem_end, some file_end⟩ =>
    if file_end ≠ image.length then .error "ELF file region and raw image sizes differ"
    else .ok mem_end
  | some _ => .error "linker SMOD memory symbols missing"

/-- The file of an image that asks for `memory` bytes. -/
def packed (arch : Arch) (image : List UInt8) (memory : Nat) : List UInt8 :=
  Header.pack
    ⟨MAGIC, FMT_VERSION, API_VERSION, ARCH arch, 1, HEADER_SIZE, image.length, memory, 0, 0⟩ ++
    image

/-- The action `pack`: the bytes it writes. -/
def pack (arch : Arch) (image : List UInt8) (elf : Option ElfSymbols) :
    Except String (List UInt8) :=
  if ¬ (0 < image.length ∧ image.length ≤ LIMIT) then .error "image must be 1..4096 bytes"
  else
    match memorySize image elf with
    | .error text => .error text
    | .ok memory_size =>
      if ¬ (image.length ≤ memory_size ∧ memory_size ≤ LIMIT) then
        .error "invalid module memory size"
      else
        let out := packed arch image memory_size
        match parse out (some arch) with
        | .error text => .error text
        | .ok _ => .ok out

/-! ## Both checks -/

/-- What both checks ask of a file: its fields, its length, and the sizes it states. -/
structure Accepted (arch : Arch) (data : List UInt8) (sizes : Sizes) : Prop where
  magic : field data 0 4 = MAGIC
  version : smod_u16 data 4 = SMOD_FORMAT_VERSION
  api : smod_u16 data 6 = SMOD_API_VERSION
  target : smod_u16 data 8 = ARCH arch
  flags : smod_u16 data 10 = SMOD_FLAG_EXECUTABLE
  offset : smod_u32 data 12 = SMOD_HEADER_SIZE
  reserved : smod_u32 data 28 = 0
  code : smod_u32 data 16 = sizes.code
  memory : smod_u32 data 20 = sizes.memory
  entry : smod_u32 data 24 = sizes.entry
  code_pos : 0 < sizes.code
  memory_le : sizes.memory ≤ SMOD_IMAGE_LIMIT
  code_le : sizes.code ≤ sizes.memory
  entry_lt : sizes.entry < sizes.code
  length : data.length = SMOD_HEADER_SIZE + sizes.code

variable (arch : Arch)

theorem arch_mem : ARCH arch ∈ [ARCH .i386, ARCH .x86_64] := by
  cases arch
  · exact mem_cons_self
  · exact mem_cons_of_mem _ mem_cons_self

theorem machine_arch_eq : smod_machine_arch arch = ARCH arch := by
  cases arch
  · rfl
  · rfl

/-- `parse` accepts what both checks ask for. -/
theorem parse_ok_iff (data : List UInt8) (info : Info) :
    parse data (some arch) = .ok info ↔
      Accepted arch data ⟨info.image, info.memory, info.entry⟩ ∧ info.arch = ARCH arch := by
  unfold parse
  simp only [unpack_from, unpackUint_two, unpackUint_four, Option.any_some, decide_eq_true_eq]
  constructor
  · intro h
    split at h
    · cases h
    split at h
    · cases h
    next hfirst =>
    split at h
    · cases h
    next htarget =>
    split at h
    · cases h
    next hflags =>
    split at h
    · cases h
    next hsizes =>
    split at h
    · cases h
    next hlength =>
    injection h with h
    subst h
    simp only [not_or, not_not] at hfirst htarget hflags hsizes hlength
    obtain ⟨hmagic, hversion, habi⟩ := hfirst
    obtain ⟨-, hflag, hoffset, hreserved⟩ := hflags
    obtain ⟨⟨hpos, -⟩, ⟨hcode, hmemory⟩, hentry⟩ := hsizes
    refine ⟨⟨hmagic, hversion, habi, htarget, hflag, hoffset, hreserved, rfl, rfl, rfl, hpos,
      hmemory, hcode, Nat.lt_of_not_le hentry, ?_⟩, htarget⟩
    rw [hlength, hoffset]
    rfl
  · rintro ⟨h, harch⟩
    have hlimit := Nat.le_trans h.code_le h.memory_le
    rw [if_neg, if_neg, if_neg, if_neg, if_neg, if_neg]
    · rw [h.target, h.code, h.memory, h.entry, ← harch]
    · rw [not_not, h.offset, h.code]
      exact h.length
    · rw [h.code, h.memory, h.entry]
      rintro (hc | hm | he)
      · exact hc ⟨h.code_pos, hlimit⟩
      · exact hm ⟨h.code_le, h.memory_le⟩
      · exact absurd h.entry_lt (Nat.not_lt.mpr he)
    · rw [h.target, h.flags, h.offset, h.reserved]
      rintro (ht | hf | ho | hr)
      · exact ht (arch_mem arch)
      · exact hf rfl
      · exact ho rfl
      · exact hr rfl
    · exact not_not.mpr h.target
    · rw [h.magic, h.version, h.api]
      rintro (hm | hv | ha)
      · exact hm rfl
      · exact hv rfl
      · exact ha rfl
    · rw [h.length]
      exact Nat.not_lt.mpr (Nat.le_add_right _ _)

/-- `smod_validate` accepts the same. -/
theorem smod_validate_some_iff (data : List UInt8) (sizes : Sizes) :
    smod_validate (smod_machine_arch arch) data data.length = some sizes ↔
      Accepted arch data sizes := by
  unfold smod_validate
  constructor
  · intro h
    split at h
    · cases h
    dsimp only at h
    split at h
    · cases h
    next hfields =>
    injection h with h
    subst h
    simp only [not_or, not_not, Nat.not_lt, Nat.not_le] at hfields
    obtain ⟨hmagic, hversion, hapi, htarget, hflags, hoffset, hreserved, hcode, -, hle, hmem,
      hentry, hlength⟩ := hfields
    exact ⟨hmagic, hversion, hapi, htarget, hflags, hoffset, hreserved, rfl, rfl, rfl,
      Nat.pos_of_ne_zero hcode, hmem, hle, hentry, hlength⟩
  · intro h
    have hlimit := Nat.le_trans h.code_le h.memory_le
    rw [if_neg]
    · dsimp only
      rw [if_neg]
      · rw [h.code, h.memory, h.entry]
      · rw [h.version, h.api, h.target, h.flags, h.offset, h.reserved, h.code, h.memory, h.entry,
          h.length, show data.take 4 = MAGIC from h.magic]
        rw [not_or, not_or, not_or, not_or, not_or, not_or, not_or, not_or, not_or, not_or, not_or,
          not_or]
        exact ⟨not_not.mpr rfl, not_not.mpr rfl, not_not.mpr rfl,
          not_not.mpr (machine_arch_eq arch).symm, not_not.mpr rfl, not_not.mpr rfl,
          not_not.mpr rfl, h.code_pos.ne', Nat.not_lt.mpr hlimit, Nat.not_lt.mpr h.code_le,
          Nat.not_lt.mpr h.memory_le, Nat.not_le.mpr h.entry_lt, not_not.mpr rfl⟩
    · rw [h.length]
      omega

/-! ## Packing -/

theorem field_skip_uint {w offset : Nat} (v : Nat) (h : w ≤ offset) (rest : List UInt8)
    (size : Nat) : field (packUint w v ++ rest) offset size = field rest (offset - w) size :=
  field_skip (length_packUint w v) h rest size

theorem field_first_uint (w v : Nat) (rest : List UInt8) :
    field (packUint w v ++ rest) 0 w = packUint w v := field_first (length_packUint w v) rest

/-- A header that has been packed unpacks to itself, if its fields fit their widths. -/
theorem unpack_pack {h : Header} (rest : List UInt8) (hmagic : h.magic.length = 4)
    (hversion : h.version < 2 ^ 16) (habi : h.abi < 2 ^ 16) (htarget : h.target < 2 ^ 16)
    (hflags : h.flags < 2 ^ 16) (hoffset : h.offset < 2 ^ 32) (hsize : h.size < 2 ^ 32)
    (hmemory : h.memory < 2 ^ 32) (hentry : h.entry < 2 ^ 32) (hreserved : h.reserved < 2 ^ 32) :
    unpack_from (h.pack ++ rest) = h := by
  unfold unpack_from Header.pack
  simp only [append_assoc]
  simp (disch := omega) only [field_first hmagic, field_skip hmagic, field_skip_uint,
    Nat.reduceSub, field_first_uint]
  rw [unpackUint_packUint hversion, unpackUint_packUint habi, unpackUint_packUint htarget,
    unpackUint_packUint hflags, unpackUint_packUint hoffset, unpackUint_packUint hsize,
    unpackUint_packUint hmemory, unpackUint_packUint hentry, unpackUint_packUint hreserved]

theorem arch_lt : ARCH arch < 2 ^ 16 := by
  cases arch
  · decide
  · decide

/-- A packed image is accepted with its own sizes. -/
theorem packed_accepted {image : List UInt8} {memory : Nat} (hpos : 0 < image.length)
    (hle : image.length ≤ memory) (hlimit : memory ≤ LIMIT) :
    Accepted arch (packed arch image memory) ⟨image.length, memory, 0⟩ := by
  have hwidth : LIMIT < 2 ^ 32 := by decide
  have hfields : unpack_from (packed arch image memory) = ⟨MAGIC, FMT_VERSION, API_VERSION,
      ARCH arch, 1, HEADER_SIZE, image.length, memory, 0, 0⟩ := by
    have hsmall : ∀ n < 4, n < 2 ^ 16 := fun n hn => by omega
    have hzero : 0 < 2 ^ 32 := by decide
    exact unpack_pack image rfl (hsmall 1 (by decide)) (hsmall 3 (by decide)) (arch_lt arch)
      (hsmall 1 (by decide)) (show 32 < 2 ^ 32 by decide) (show image.length < 2 ^ 32 by omega)
      (show memory < 2 ^ 32 by omega) hzero hzero
  unfold unpack_from at hfields
  simp only [unpackUint_two, unpackUint_four, Header.mk.injEq] at hfields
  obtain ⟨hmagic, hversion, habi, htarget, hflags, hoffset, hsize, hmemory, hentry, hreserved⟩ :=
    hfields
  refine ⟨hmagic, hversion, habi, htarget, hflags, hoffset, hreserved, hsize, hmemory, hentry, hpos,
    hlimit, hle, hpos, ?_⟩
  unfold packed Header.pack
  simp only [length_append, length_packUint]
  simp [MAGIC, SMOD_HEADER_SIZE]

/-- `parse` and `smod_validate` accept the same files, for either architecture, and read
the same sizes from them; and what `pack` makes of an image that is neither empty nor too
large is accepted, with the memory the linked file asks for or with that of the image. -/
theorem packer_and_loader_agree (arch : Arch) :
    (∀ data : List UInt8,
      ((∃ info, parse data (some arch) = .ok info) ↔
        ∃ sizes, smod_validate (smod_machine_arch arch) data data.length = some sizes) ∧
      ∀ info sizes, parse data (some arch) = .ok info →
        smod_validate (smod_machine_arch arch) data data.length = some sizes →
        info.image = sizes.code ∧ info.memory = sizes.memory ∧ info.entry = sizes.entry) ∧
    (∀ (image : List UInt8) (memory : Nat), 1 ≤ image.length → image.length ≤ LIMIT →
      image.length ≤ memory → memory ≤ LIMIT →
      ∃ out, pack arch image (some ⟨some memory, some image.length⟩) = .ok out ∧
        (memory = image.length → pack arch image none = .ok out) ∧
        (∃ info, parse out (some arch) = .ok info) ∧
        smod_validate (smod_machine_arch arch) out out.length =
          some ⟨image.length, memory, 0⟩) := by
  constructor
  · intro data
    constructor
    · constructor
      · rintro ⟨info, hok⟩
        exact ⟨_, (smod_validate_some_iff arch data _).mpr ((parse_ok_iff arch data info).mp hok).1⟩
      · rintro ⟨sizes, hsome⟩
        refine ⟨⟨ARCH arch, sizes.code, sizes.memory, sizes.entry⟩,
          (parse_ok_iff arch data _).mpr ?_⟩
        exact ⟨(smod_validate_some_iff arch data sizes).mp hsome, rfl⟩
    · intro info sizes hok hsome
      have hparse := ((parse_ok_iff arch data info).mp hok).1
      have hkernel := (smod_validate_some_iff arch data sizes).mp hsome
      exact ⟨hparse.code.symm.trans hkernel.code, hparse.memory.symm.trans hkernel.memory,
        hparse.entry.symm.trans hkernel.entry⟩
  · intro image memory hpos hle hmem hlimit
    have haccepted := packed_accepted arch hpos hmem hlimit
    have hparse : parse (packed arch image memory) (some arch) =
        .ok ⟨ARCH arch, image.length, memory, 0⟩ :=
      (parse_ok_iff arch _ _).mpr ⟨haccepted, rfl⟩
    have hpack : ∀ elf, memorySize image elf = .ok memory →
        pack arch image elf = .ok (packed arch image memory) := by grind [pack]
    refine ⟨packed arch image memory, hpack _ ?_, fun heq => hpack _ ?_, ⟨_, hparse⟩, ?_⟩
    · exact if_neg (not_not.mpr rfl)
    · rw [heq]
      rfl
    · exact (smod_validate_some_iff arch _ _).mpr haccepted

/-- The two bytes `90 c3` for an i386 kernel. -/
theorem two_bytes_accepted :
    ∃ out, pack .i386 [0x90, 0xC3] none = .ok out ∧
      smod_validate (smod_machine_arch .i386) out out.length = some ⟨2, 2, 0⟩ := by
  obtain ⟨out, -, hpack, -, hkernel⟩ := (packer_and_loader_agree .i386).2 [0x90, 0xC3] 2 (by decide)
    (by decide) (by decide) (by decide)
  exact ⟨out, hpack rfl, hkernel⟩

end System1.Mksmod

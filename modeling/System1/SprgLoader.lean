/-
Confinement and exactness of the SPRG loader.

The loader is run against an environment that may chunk every read as it likes and
fail at any call (`Fs.Serves`). Two things are proved of it. Whatever happens,
every store lands in the user window. And when the load succeeds, each segment's
memory is the file's bytes followed by zeros, which needs the segments to be
disjoint: a segment is exact when it has been copied, and it stays exact because
no later segment reaches it.

Both go through the weakest precondition against `Allowed`, the relation that
bounds what the environment may answer. `WroteOnly` is the frame each loop
carries: it is transitive, so a loop keeps it by keeping it for one iteration.
-/
import System1.Sprg

set_option autoImplicit false

namespace System1.Sprg

open System1.Lib List Prog

/-! ## The environment, as a relation -/

/-- Memory and the record of stores are as before. -/
def Quiet (s s' : Env) : Prop := s'.mem = s.mem ∧ s'.written = s.written

/-- What an environment serving `file` may answer, and how it moves. -/
def Allowed (W : Nat) (file : List UInt8) (s : Env) : (r : Req) → Resp r → Env → Prop
  | .fs_stat _, x, s' => (∀ st, x = .ok st → st.size = file.length) ∧ Quiet s s'
  | .fs_core_open _, _, s' => Quiet s s'
  | .fs_core_close _, _, s' => Quiet s s'
  | .fs_core_read _ offset size, x, s' =>
    (∀ bytes, x = .got bytes → bytes.length ≤ size ∧ bytes <+: file.drop offset) ∧
    (∀ rc left, x = .error rc left → left.length ≤ size) ∧ Quiet s s'
  | .store addr bytes, _, s' =>
    s'.mem = storeBytes (2 ^ W) s.mem addr bytes ∧
    s'.written = s.written ++ storeAddrs (2 ^ W) addr bytes.length

variable {W : Nat} {file : List UInt8}

/-- The handler answers as the file says. -/
theorem handler_allowed {fs : Fs} (hfs : fs.Serves file) (s : Env) (r : Req) :
    Allowed W file s r (handler W fs s r).1 (handler W fs s r).2 := by
  cases r with
  | fs_stat path => exact ⟨fun st h => hfs.stat_size _ st h, rfl, rfl⟩
  | fs_core_open | fs_core_close | store => exact ⟨rfl, rfl⟩
  | fs_core_read node_id offset size =>
    exact ⟨fun bytes h => hfs.read_got _ _ _ _ bytes h,
      fun rc left h => hfs.read_error _ _ _ _ rc left h, rfl, rfl⟩

theorem Quiet.refl (s : Env) : Quiet s s := ⟨rfl, rfl⟩

variable {s t : Env}

theorem Quiet.trans {u : Env} (h : Quiet s t) (h' : Quiet t u) : Quiet s u :=
  ⟨h'.1.trans h.1, h'.2.trans h.2⟩

/-- Closing the file and failing moves nothing. -/
theorem closeAndFail_spec {α : Type} {node_id : Nat} {err : SprgErr}
    {F : Env → Prop} {P : α → Env → Prop} (h : ∀ s', Quiet s s' → F s') :
    (closeAndFail node_id err : M α).wp (Allowed W file) (Prog.Exits F P) s :=
  fun _ s' hs' => h s' hs'

/-- `orClose` keeps the value of a program that succeeds and closes on failure. -/
theorem orClose_spec {α : Type} {node_id : Nat} {p : M α} {P : α → Env → Prop}
    (hp : p.wp (Allowed W file) (Prog.Exits (Quiet s) P) s) :
    (orClose node_id p).wp (Allowed W file) (Prog.Exits (Quiet s) P) s := by
  refine wp_seq (wp_attempt (wp_mono hp ?_))
  rintro (a | e | _) s' h
  · exact h
  · exact closeAndFail_spec fun t ht => h.trans ht
  · exact h

/-! ## Reading the headers -/

variable {bytes : List UInt8}

/-- The prefix delivered by one read extends the part of the file already read. -/
theorem take_append_of_prefix {offset done : Nat} (hb : bytes <+: file.drop (offset + done)) :
    (file.drop offset).take done ++ bytes = (file.drop offset).take (done + bytes.length) := by
  obtain ⟨rest, hrest⟩ := hb
  rw [take_add, drop_drop, ← hrest, take_left]

/-- The loop over short reads collects the bytes asked for. -/
theorem sprg_read_exact_loop_spec (node_id offset size : Nat) (hfit : offset + size < 2 ^ 32) :
    ∀ (done : Nat) (buffer : List UInt8) (s : Env),
    buffer = (file.drop offset).take done → buffer.length = done → done ≤ size →
    (sprg_read_exact_loop node_id offset size done buffer).wp (Allowed W file)
      (Prog.Exits (Quiet s) fun buf _ => buf = (file.drop offset).take size) s := by
  intro done
  induction hn : size - done using Nat.strongRecOn generalizing done with
  | _ n ih =>
    intro buffer s hbuf hlen hle
    rw [sprg_read_exact_loop]
    by_cases hlt : done < size
    · rw [dif_pos hlt, u32_of_lt (by omega)]
      refine wp_call_bind ?_
      rintro x s' ⟨hgot, -, hq⟩
      cases x with
      | error rc left => exact hq
      | got bytes =>
        obtain ⟨hbl, hpre⟩ := hgot bytes rfl
        dsimp only
        by_cases hpos : bytes.length = 0
        · rw [dif_pos hpos]
          exact hq
        rw [dif_neg hpos]
        refine wp_exits_mono (ih (size - (done + bytes.length)) (by omega) _ rfl
          (buffer ++ bytes) s' ?_ ?_ (by omega)) (fun _ => hq.trans) fun _ _ _ h => h
        · rw [hbuf]; exact take_append_of_prefix hpre
        · rw [length_append, hlen]
    · rw [dif_neg hlt]
      have heq : done = size := by omega
      exact ⟨Quiet.refl s, by rw [hbuf, heq]⟩

/-- `sprg_read_exact` delivers exactly the file's bytes or fails. -/
theorem sprg_read_exact_spec (node_id offset size : Nat) (hfit : offset + size < 2 ^ 32) (s : Env) :
    (sprg_read_exact node_id offset size).wp (Allowed W file)
      (Prog.Exits (Quiet s) fun buf _ => buf = (file.drop offset).take size) s :=
  sprg_read_exact_loop_spec node_id offset size hfit 0 [] s (by simp) rfl (Nat.zero_le _)

/-- Program header `i` of the table at `phoff`. -/
def phdrAt (file : List UInt8) (phoff i : Nat) : Segment :=
  segmentOf ((file.drop (phoff + i * SPRG_PHDR_SIZE)).take SPRG_PHDR_SIZE)

/-- The program headers are read one after the other. -/
theorem sprg_read_phdrs_spec (node_id phoff : Nat) (n : Nat) :
    ∀ (i : Nat) (segs : List Segment) (s : Env),
    phoff + (i + n) * SPRG_PHDR_SIZE < 2 ^ 32 →
    segs = (range i).map (phdrAt file phoff) →
    (sprg_read_phdrs node_id phoff i n segs).wp (Allowed W file)
      (Prog.Exits (Quiet s) fun z _ => z = (range (i + n)).map (phdrAt file phoff)) s := by
  induction n with
  | zero => exact fun i segs s _ hsegs => ⟨Quiet.refl s, hsegs⟩
  | succ n ih =>
    intro i segs s hfit hsegs
    simp only [SPRG_PHDR_SIZE] at hfit
    rw [sprg_read_phdrs, u32_of_lt (by simp only [SPRG_PHDR_SIZE]; omega)]
    refine wp_exits_bind (orClose_spec (sprg_read_exact_spec node_id
      (phoff + i * SPRG_PHDR_SIZE) SPRG_PHDR_SIZE (by simp only [SPRG_PHDR_SIZE]; omega) s))
      (fun _ hq => hq) ?_
    rintro phdr s' hq rfl
    refine wp_exits_mono (ih (i + 1) _ s' (by simp only [SPRG_PHDR_SIZE]; omega) ?_)
      (fun _ => hq.trans) ?_
    · rw [range_succ, map_append, hsegs]
      rfl
    · rintro z t - rfl
      rw [Nat.add_assoc, Nat.add_comm 1 n]

/-! ## The segment table -/

/-- The bytes of a segment in memory. -/
def Segment.Covers (seg : Segment) (a : Nat) : Prop :=
  seg.vaddr ≤ a ∧ a < seg.vaddr + seg.memsz

/-- Two segments share no address. -/
def Segment.Disjoint (s t : Segment) : Prop := ∀ a, s.Covers a → ¬ t.Covers a

theorem segmentOf_lt (phdr : List UInt8) :
    (segmentOf phdr).vaddr < 2 ^ 32 ∧ (segmentOf phdr).memsz < 2 ^ 32 :=
  ⟨le32_lt _ _ _ _, le32_lt _ _ _ _⟩

/-- The overlap test is sound: with both ends computed in 32 bits, a wrapped end
counts as an overlap, so a negative answer means the true ranges are apart. -/
theorem disjoint_of_not_overlap {s t : Segment} (hsm : s.memsz < 2 ^ 32)
    (htm : t.memsz < 2 ^ 32)
    (h : sprg_segments_overlap s.vaddr s.memsz t.vaddr t.memsz = false) : s.Disjoint t := by
  rintro a ⟨hs1, hs2⟩ ⟨ht1, ht2⟩
  grind [sprg_segments_overlap, decide_eq_false_iff_not, u32]

theorem sprg_range_valid_iff (offset size file_size : Nat) :
    sprg_range_valid offset size file_size = true ↔ offset + size ≤ file_size := by
  unfold sprg_range_valid
  grind

/-- What an accepted segment table promises, one segment at a time. -/
theorem sprg_validate_segment_table_cons {file_size : Nat} {seg : Segment} {rest : List Segment}
    (h : sprg_validate_segment_table file_size (seg :: rest) = .ok ()) :
    seg.filesz ≤ seg.memsz ∧ seg.offset + seg.filesz ≤ file_size ∧
    (∀ t ∈ rest, sprg_segments_overlap seg.vaddr seg.memsz t.vaddr t.memsz = false) ∧
    sprg_validate_segment_table file_size rest = .ok () := by
  rw [sprg_validate_segment_table] at h
  split at h
  · cases h
  split at h
  · cases h
  next hmem =>
  split at h
  · cases h
  next hrange =>
  grind [sprg_range_valid_iff]

/-! ## `sprg_core_validate_file`

It stores nothing, and an image it accepts is the one the file's own bytes
describe. -/

/-- The image is decoded from the file and its table has been accepted. -/
structure Accepted (file : List UInt8) (image : Image) : Prop where
  entry : image.entry = sprg_le32 file 12
  segments : image.segments = (range (sprg_le32 file 20)).map (phdrAt file (sprg_le32 file 16))
  table : sprg_validate_segment_table file.length image.segments = .ok ()
  size : file.length ≤ SPRG_MAX_FILE_SIZE

theorem sprg_le32_take (file : List UInt8) {n i : Nat} (h : i + 3 < n) :
    sprg_le32 (file.take n) i = sprg_le32 file i := by grind [sprg_le32]

/-- An accepted file is well formed, and nothing has been stored. -/
theorem sprg_core_validate_file_spec (path : CString) (expected_arch : Nat) (s : Env) :
    (sprg_core_validate_file path expected_arch).wp (Allowed W file)
      (Prog.Exits (Quiet s) fun image _ => Accepted file image) s := by
  unfold sprg_core_validate_file
  split
  · exact Quiet.refl s
  refine wp_call_bind ?_
  rintro x s1 ⟨hstat, hq1⟩
  cases x with
  | error rc => exact hq1
  | ok st =>
    have hsize := hstat st rfl
    dsimp only
    split
    · exact hq1
    split
    · exact hq1
    next hmax =>
    refine wp_call_bind ?_
    intro x s2 hq2
    have hq2' : Quiet s s2 := hq1.trans hq2
    cases x with
    | error rc => exact hq2'
    | ok node_id =>
      -- an exit on the way has only closed the file
      have hclose : ∀ {e : SprgErr} {t : Env}, Quiet s t →
          (closeAndFail node_id e : M Image).wp (Allowed W file)
            (Prog.Exits (Quiet s) fun image _ => Accepted file image) t :=
        fun ht => closeAndFail_spec fun _ ht' => ht.trans ht'
      refine wp_exits_bind (orClose_spec (sprg_read_exact_spec node_id 0 SPRG_HEADER_SIZE
        (by decide) s2)) (fun _ => hq2'.trans) ?_
      intro header s3 hq3 hh
      have hq3' : Quiet s s3 := hq2'.trans hq3
      rw [drop_zero] at hh
      have hword : ∀ i, i + 3 < SPRG_HEADER_SIZE → sprg_le32 header i = sprg_le32 file i :=
        fun i hi => by rw [hh]; exact sprg_le32_take file hi
      rw [hword 4 (by decide), hword 8 (by decide), hword 12 (by decide),
        hword 16 (by decide), hword 20 (by decide), hword 24 (by decide)]
      split
      · exact hclose hq3'
      split
      · exact hclose hq3'
      split
      · exact hclose hq3'
      split
      · exact hclose hq3'
      split
      · exact hclose hq3'
      next hrange =>
      have hfit := (sprg_range_valid_iff _ _ _).mp (Bool.of_not_eq_false hrange)
      refine wp_exits_bind (sprg_read_phdrs_spec node_id (sprg_le32 file 16)
        (sprg_le32 file 20) 0 [] s3 ?_ rfl) (fun _ => hq3'.trans) ?_
      · simp only [SPRG_MAX_FILE_SIZE] at hmax
        rw [Nat.zero_add]
        omega
      intro segs s4 hq4 hseg
      refine wp_call_bind ?_
      intro _ s5 hq5
      have hq5' : Quiet s s5 := (hq3'.trans hq4).trans hq5
      rw [Nat.zero_add] at hseg
      rw [hsize] at hmax ⊢
      cases htab : sprg_validate_segment_table file.length segs with
      | error e => exact hq5'
      | ok u => exact ⟨hq5', rfl, hseg, htab, by omega⟩

/-! ## Stores and their frame -/

/-- Between `s` and `s'` only addresses of `[lo, hi)` were stored to. -/
structure WroteOnly (lo hi : Nat) (s s' : Env) : Prop where
  written : ∀ a ∈ s'.written, a ∈ s.written ∨ (lo ≤ a ∧ a < hi)
  mem : ∀ a, a < lo ∨ hi ≤ a → s'.mem a = s.mem a

variable {lo hi : Nat} {s' : Env}

theorem WroteOnly.of_quiet (h : Quiet s s') : WroteOnly lo hi s s' :=
  ⟨fun a ha => .inl (h.2 ▸ ha), fun a _ => by rw [h.1]⟩

theorem WroteOnly.trans {u : Env} (h : WroteOnly lo hi s t) (h' : WroteOnly lo hi t u) :
    WroteOnly lo hi s u where
  written a ha := by
    rcases h'.written a ha with h1 | h1
    · exact h.written a h1
    · exact .inr h1
  mem a ha := (h'.mem a ha).trans (h.mem a ha)

theorem WroteOnly.mono {lo' hi' : Nat} (h : WroteOnly lo hi s t) (hlo : lo' ≤ lo) (hhi : hi ≤ hi') :
    WroteOnly lo' hi' s t where
  written a ha := by
    rcases h.written a ha with h1 | ⟨h1, h2⟩
    · exact .inl h1
    · exact .inr ⟨by omega, by omega⟩
  mem a ha := h.mem a (by omega)

/-- A store of a block that fits stays inside the block. -/
theorem store_wroteOnly {addr : Nat} (hfit : addr + bytes.length ≤ 2 ^ W)
    (h : Allowed W file s (.store addr bytes) () s') :
    WroteOnly addr (addr + bytes.length) s s' where
  written a ha := by
    rw [h.2] at ha
    rcases mem_append.mp ha with h1 | h1
    · exact .inl h1
    · exact .inr (mem_storeAddrs hfit h1)
  mem a ha := by rw [h.1]; exact storeBytes_miss bytes s.mem addr a hfit ha

theorem store_hit {addr i : Nat} (hfit : addr + bytes.length ≤ 2 ^ W) (hi : i < bytes.length)
    (h : Allowed W file s (.store addr bytes) () s') :
    bytes[i]? = some (s'.mem (addr + i)) := by
  rw [h.1, storeBytes_hit bytes s.mem addr i 0 hfit hi, getD_eq_getElem?_getD,
    getElem?_eq_getElem hi, Option.getD_some]

/-! ## Copying one segment -/

/-- The first `n` bytes at `start` are the file's bytes from `offset` on. -/
def CopiedTo (file : List UInt8) (mem : Nat → UInt8) (start offset n : Nat) : Prop :=
  ∀ i < n, file[offset + i]? = some (mem (start + i))

/-- The invariant of the copy loop is that the first `done` bytes are in place: one
transfer writes above them and adds the bytes it delivered. -/
theorem sprg_copy_segment_spec (node_id start offset filesz : Nat) (hfit : offset + filesz < 2 ^ 32)
    (hmem : start + filesz ≤ 2 ^ W) :
    ∀ (done : Nat) (s : Env), done ≤ filesz → CopiedTo file s.mem start offset done →
    (sprg_copy_segment W node_id start offset filesz done).wp (Allowed W file)
      (Prog.Exits (WroteOnly start (start + filesz) s)
        fun _ s' => CopiedTo file s'.mem start offset filesz) s := by
  intro done
  induction hn : filesz - done using Nat.strongRecOn generalizing done with
  | _ n ih =>
    intro s hle hcopied
    rw [sprg_copy_segment]
    by_cases hlt : done < filesz
    · have hM : 0 < 2 ^ W := by omega
      rw [dif_pos hlt, u32_of_lt (by omega), Nat.mod_eq_of_lt (by omega)]
      refine wp_call_bind ?_
      rintro x s1 ⟨hgot, hleft, hq⟩
      -- whatever a transfer stores lies above `done` and inside the segment
      have hstore : ∀ (bytes : List UInt8) (s2 : Env),
          bytes.length ≤ min (filesz - done) SPRG_STREAM_CHUNK →
          Allowed W file s1 (.store (start + done) bytes) () s2 →
          WroteOnly (start + done) (start + filesz) s s2 := by
        intro bytes s2 hb hst
        exact (WroteOnly.of_quiet hq).trans
          ((store_wroteOnly (by omega) hst).mono (Nat.le_refl _) (by omega))
      cases x with
      | error rc left =>
        refine wp_call_bind ?_
        intro _ s2 hst
        have hw := (hstore left s2 (hleft rc left rfl) hst).mono
          (Nat.le_add_right start done) (Nat.le_refl _)
        exact closeAndFail_spec fun s3 hq3 => hw.trans (.of_quiet hq3)
      | got bytes =>
        obtain ⟨hbl, hpre⟩ := hgot bytes rfl
        refine wp_call_bind ?_
        intro _ s2 hst
        have hup := hstore bytes s2 hbl hst
        have hw := hup.mono (Nat.le_add_right start done) (Nat.le_refl _)
        by_cases hpos : bytes.length = 0
        · rw [dif_pos hpos]
          exact closeAndFail_spec fun s3 hq3 => hw.trans (.of_quiet hq3)
        rw [dif_neg hpos]
        refine wp_exits_mono (ih (filesz - (done + bytes.length)) (by omega) _ rfl s2
          (by omega) ?_) (fun _ => hw.trans) fun _ _ _ h => h
        intro i hi
        by_cases hid : i < done
        · rw [hup.mem _ (by omega)]
          exact hcopied i hid
        have hk : i - done < bytes.length := by omega
        have hit := store_hit (by omega) hk hst
        have hfile := prefix_iff_getElem?.mp hpre (i - done) hk
        rw [getElem?_drop, ← getElem?_eq_getElem hk, hit] at hfile
        rwa [show offset + done + (i - done) = offset + i by omega,
          show start + done + (i - done) = start + i by omega] at hfile
    · rw [dif_neg hlt]
      have heq : done = filesz := by omega
      exact ⟨.of_quiet (Quiet.refl s), heq ▸ hcopied⟩

/-! ## Loading every segment -/

/-- The segment's memory image: its file part, then zeros. -/
structure SegLoaded (file : List UInt8) (mem : Nat → UInt8) (seg : Segment) : Prop where
  copied : CopiedTo file mem seg.vaddr seg.offset seg.filesz
  zeroed : ∀ i, seg.filesz ≤ i → i < seg.memsz → mem (seg.vaddr + i) = 0

/-- A loaded segment stays loaded while only addresses outside it change. -/
theorem SegLoaded.frame {mem mem' : Nat → UInt8} {seg : Segment} (h : SegLoaded file mem seg)
    (hfile : seg.filesz ≤ seg.memsz) (hsame : ∀ a, seg.Covers a → mem' a = mem a) :
    SegLoaded file mem' seg where
  copied i hi := by
    rw [hsame _ ⟨by omega, by omega⟩]
    exact h.copied i hi
  zeroed i hlo hhi := by
    rw [hsame _ ⟨by omega, by omega⟩]
    exact h.zeroed i hlo hhi

/-- What the loader knows about a segment of an accepted table before loading it. -/
structure SegReady (file : List UInt8) (seg : Segment) : Prop where
  vaddr_lt : seg.vaddr < 2 ^ 32
  memsz_lt : seg.memsz < 2 ^ 32
  filesz_le : seg.filesz ≤ seg.memsz
  offset_lt : seg.offset + seg.filesz < 2 ^ 32

/-- Stores stayed in the user window and in the segment. -/
def WroteSeg (user_min user_max : Nat) (seg : Segment) (s s' : Env) : Prop :=
  WroteOnly user_min user_max s s' ∧ WroteOnly seg.vaddr (seg.vaddr + seg.memsz) s s'

theorem WroteSeg.of_quiet {user_min user_max : Nat} {seg : Segment} (h : Quiet s s') :
    WroteSeg user_min user_max seg s s' :=
  ⟨.of_quiet h, .of_quiet h⟩

/-- A segment that loads is exact afterwards. -/
theorem sprg_load_segment_spec (hW : W = 32 ∨ W = 64) (node_id user_min user_max entry : Nat)
    (seg : Segment) (hseg : SegReady file seg) (s : Env) :
    (sprg_load_segment W node_id user_min user_max entry seg).wp (Allowed W file)
      (Prog.Exits (WroteSeg user_min user_max seg s) fun hit s' => SegLoaded file s'.mem seg ∧
        (hit = true → seg.flags &&& SPRG_FLAG_X ≠ 0 ∧ seg.Covers entry)) s := by
  obtain ⟨hva, hme, hfm, hof⟩ := hseg
  have hwidth : 2 ^ 32 ≤ 2 ^ W := Nat.pow_le_pow_right (by decide) (by omega)
  unfold sprg_load_segment
  by_cases hbad : (seg.vaddr + seg.memsz) % 2 ^ W < seg.vaddr ∨ seg.vaddr < user_min ∨
      (seg.vaddr + seg.memsz) % 2 ^ W > user_max
  · rw [if_pos hbad]
    exact closeAndFail_spec fun _ => .of_quiet
  -- an end that does not come out below the start has not wrapped
  have hnowrap : (seg.vaddr + seg.memsz) % 2 ^ W = seg.vaddr + seg.memsz := by grind
  rw [if_neg hbad]
  rw [hnowrap] at hbad ⊢
  split
  · exact closeAndFail_spec fun _ => .of_quiet
  rw [Nat.mod_eq_of_lt (by omega : seg.vaddr + seg.filesz < 2 ^ W)]
  refine wp_exits_bind (sprg_copy_segment_spec node_id seg.vaddr seg.offset seg.filesz hof
    (by omega) 0 s (Nat.zero_le _) (fun i hi => absurd hi (Nat.not_lt_zero i))) ?_ ?_
  · intro s1 hw1
    have hseg1 :=
      hw1.mono (Nat.le_refl _) (by omega : seg.vaddr + seg.filesz ≤ seg.vaddr + seg.memsz)
    exact ⟨hseg1.mono (by omega) (by omega), hseg1⟩
  · intro _ s1 hw1 hcopy
    refine wp_call_bind ?_
    intro _ s2 hst
    have hlen : (replicate (seg.memsz - seg.filesz) (0 : UInt8)).length =
        seg.memsz - seg.filesz := length_replicate
    have hw2 := store_wroteOnly (by omega) hst
    have hseg2 : WroteOnly seg.vaddr (seg.vaddr + seg.memsz) s s2 :=
      (hw1.mono (Nat.le_refl _) (by omega)).trans (hw2.mono (by omega) (by omega))
    refine ⟨⟨hseg2.mono (by omega) (by omega), hseg2⟩, ⟨fun i hi => ?_, fun i hlo hhi => ?_⟩,
      fun h => ?_⟩
    · rw [hw2.mem _ (by omega)]
      exact hcopy i hi
    · have hz := store_hit (i := i - seg.filesz) (by omega) (by omega) hst
      grind
    · have hx := of_decide_eq_true h
      exact hx

/-- The loop over the segments. `earlier` are the segments already loaded: they are
disjoint from the ones to come, so loading those leaves them exact. -/
theorem sprg_load_segments_spec (hW : W = 32 ∨ W = 64) (node_id user_min user_max entry : Nat)
    (segs : List Segment) :
    ∀ (entry_is_executable : Bool) (s : Env), (∀ seg ∈ segs, SegReady file seg) →
    segs.Pairwise Segment.Disjoint →
    (sprg_load_segments W node_id user_min user_max entry segs entry_is_executable).wp
      (Allowed W file)
      (Prog.Exits (WroteOnly user_min user_max s) fun b s' =>
        (∀ seg ∈ segs, SegLoaded file s'.mem seg) ∧
        (∀ a, (∀ seg ∈ segs, ¬ seg.Covers a) → s'.mem a = s.mem a) ∧
        (b = true → entry_is_executable = true ∨
          ∃ seg ∈ segs, seg.flags &&& SPRG_FLAG_X ≠ 0 ∧ seg.Covers entry)) s := by
  induction segs with
  | nil =>
    intro acc s _ _
    exact ⟨.of_quiet (Quiet.refl s), nofun, fun a _ => rfl, .inl⟩
  | cons seg rest ih =>
    intro acc s hready hdisj
    have hseg := hready seg mem_cons_self
    have hapart : ∀ t ∈ rest, seg.Disjoint t := (pairwise_cons.mp hdisj).1
    refine wp_exits_bind (sprg_load_segment_spec hW node_id user_min user_max entry seg hseg s)
      (fun _ h => h.1) ?_
    rintro hit s1 ⟨hu1, hs1⟩ ⟨hload, hx⟩
    refine wp_exits_mono (ih (acc || hit) s1 (fun t ht => hready t (mem_cons_of_mem _ ht))
      (pairwise_cons.mp hdisj).2) (fun _ => hu1.trans) ?_
    rintro b s2 - ⟨hall, hframe, hentry⟩
    refine ⟨?_, ?_, ?_⟩
    · intro t ht
      rcases mem_cons.mp ht with rfl | ht
      · exact hload.frame hseg.filesz_le
          fun a ha => hframe a fun u hu => hapart u hu a ha
      · exact hall t ht
    · intro a ha
      have hout : a < seg.vaddr ∨ seg.vaddr + seg.memsz ≤ a := by grind [Segment.Covers]
      rw [hframe a fun t ht => ha t (mem_cons_of_mem _ ht), hs1.mem a hout]
    · grind

/-! ## `sprg_core_load_file` -/

/-- What an accepted table says about all its segments together. -/
theorem table_ready (hsize : file.length ≤ SPRG_MAX_FILE_SIZE) (segs : List Segment)
    (hlt : ∀ seg ∈ segs, seg.vaddr < 2 ^ 32 ∧ seg.memsz < 2 ^ 32)
    (h : sprg_validate_segment_table file.length segs = .ok ()) :
    (∀ seg ∈ segs, SegReady file seg) ∧ segs.Pairwise Segment.Disjoint := by
  simp only [SPRG_MAX_FILE_SIZE] at hsize
  induction segs with
  | nil => exact ⟨fun seg hs => (by cases hs), .nil⟩
  | cons seg rest ih =>
    obtain ⟨hfm, hrange, hover, hrest⟩ := sprg_validate_segment_table_cons h
    obtain ⟨hv, hm⟩ := hlt seg mem_cons_self
    have hlt' : ∀ t ∈ rest, t.vaddr < 2 ^ 32 ∧ t.memsz < 2 ^ 32 :=
      fun t ht => hlt t (mem_cons_of_mem _ ht)
    obtain ⟨hready, hdisj⟩ := ih hlt' hrest
    refine ⟨?_, pairwise_cons.mpr ⟨fun t ht => ?_, hdisj⟩⟩
    · intro t ht
      rcases mem_cons.mp ht with rfl | ht
      · exact ⟨hv, hm, hfm, by omega⟩
      · exact hready t ht
    · exact disjoint_of_not_overlap hm (hlt' t ht).2 (hover t ht)

/-- An image whose segments are in memory and whose entry point can be run. -/
structure Loaded (file : List UInt8) (mem : Nat → UInt8) (image : Image) : Prop where
  accepted : Accepted file image
  disjoint : image.segments.Pairwise Segment.Disjoint
  loaded : ∀ seg ∈ image.segments, SegLoaded file mem seg
  entry : ∃ seg ∈ image.segments, seg.flags &&& SPRG_FLAG_X ≠ 0 ∧ seg.Covers image.entry

/-- A loaded file is in memory as its headers say, and only the window has been written. -/
theorem sprg_core_load_file_spec (hW : W = 32 ∨ W = 64) (path : CString)
    (expected_arch user_min user_max : Nat) (s : Env) :
    (sprg_core_load_file W path expected_arch user_min user_max).wp (Allowed W file)
      (Prog.Exits (WroteOnly user_min user_max s) fun image s' => Loaded file s'.mem image) s := by
  unfold sprg_core_load_file
  split
  · exact .of_quiet (Quiet.refl s)
  refine wp_exits_bind (sprg_core_validate_file_spec path expected_arch s)
    (fun _ => .of_quiet) ?_
  intro image s1 hq1 hacc
  have hlt : ∀ seg ∈ image.segments, seg.vaddr < 2 ^ 32 ∧ seg.memsz < 2 ^ 32 := by
    intro seg hseg
    rw [hacc.segments] at hseg
    obtain ⟨i, -, rfl⟩ := mem_map.mp hseg
    exact segmentOf_lt _
  obtain ⟨hready, hdisj⟩ := table_ready hacc.size image.segments hlt hacc.table
  refine wp_call_bind ?_
  intro x s2 hq2
  have hw2 : WroteOnly user_min user_max s s2 := .of_quiet (hq1.trans hq2)
  cases x with
  | error rc => exact hw2
  | ok node_id =>
    refine wp_exits_bind (sprg_load_segments_spec hW node_id user_min user_max image.entry
      image.segments false s2 hready hdisj) (fun _ => hw2.trans) ?_
    rintro b s3 hw3 ⟨hall, -, hentry⟩
    refine wp_call_bind ?_
    intro _ s4 hq4
    have hw4 : WroteOnly user_min user_max s s4 := (hw2.trans hw3).trans (.of_quiet hq4)
    split
    · exact hw4
    next hexec =>
    refine ⟨hw4, hacc, hdisj, ?_, ?_⟩
    · rw [hq4.1]; exact hall
    · exact (hentry (Bool.of_not_eq_false hexec)).resolve_left (by simp)

/-- Confinement and exactness. For either pointer width, any file content and any
filesystem that serves the file (however it chunks the reads and whenever it fails):
every byte stored lies in the user window, the call returns, and after `SPRG_OK` the
segments are disjoint, each one's memory is its file bytes followed by zeros, and the
entry point lies in an executable segment. -/
theorem load_confined_and_exact {W : Nat} (hW : W = 32 ∨ W = 64) {file : List UInt8} {fs : Fs}
    (hfs : fs.Serves file) (path : CString) (expected_arch user_min user_max : Nat)
    (mem : Nat → UInt8) :
    (∀ a ∈ (load W fs path expected_arch user_min user_max mem).2.written,
      user_min ≤ a ∧ a < user_max) ∧
    (load W fs path expected_arch user_min user_max mem).1 ≠ .spin ∧
    ∀ image, (load W fs path expected_arch user_min user_max mem).1 = .done image →
      Loaded file (load W fs path expected_arch user_min user_max mem).2.mem image := by
  obtain ⟨hw, hspin, hloaded⟩ := (wp_run (handler W fs) (handler_allowed hfs)
    (sprg_core_load_file_spec hW path expected_arch user_min user_max
      { calls := 0, mem := mem, written := [] })).elim
  refine ⟨fun a ha => ?_, hspin, hloaded⟩
  rcases hw.written a ha with h | h
  · cases h
  · exact h

/-- A file with one executable segment: two bytes of code and two of zeroed data. -/
def sampleFile : List UInt8 :=
  [0x53, 0x50, 0x52, 0x47, 1, 0, 0, 0, 1, 0, 0, 0, 0, 1, 0, 0, 28, 0, 0, 0, 1, 0, 0, 0, 0, 0, 0, 0,
    1, 0, 0, 0, 60, 0, 0, 0, 0, 1, 0, 0, 2, 0, 0, 0, 4, 0, 0, 0, 5, 0, 0, 0, 0, 0, 0, 0, 0, 0, 0, 0,
    0x90, 0xc3]

/-- A filesystem that delivers `sampleFile` at most seven bytes at a time. -/
def sampleFs : Fs where
  stat := fun _ => .ok ⟨FS_MODE_FILE, sampleFile.length⟩
  «open» := fun _ => .ok 1
  read := fun _ _ offset size => .got ((sampleFile.drop offset).take (min size 7))

/-- The sample filesystem serves its one file. -/
theorem sampleFs_serves : sampleFs.Serves sampleFile where
  stat_size t st h := by cases h; rfl
  read_got t node_id offset size bytes h := by
    cases h
    refine ⟨?_, take_prefix _ _⟩
    rw [length_take]
    omega
  read_error t node_id offset size rc left h := by cases h

/-- The path `/a.prg`. -/
def samplePath : CString := ⟨[0x2f, 0x61, 0x2e, 0x70, 0x72, 0x67], by decide⟩

/-- The sample file loads at `0x100`, and everything stored lies in its window. -/
theorem load_sample :
    (∃ image, (load 32 sampleFs samplePath 1 0x100 0x200 (fun _ => 0xff)).1 = .done image ∧
      Loaded sampleFile (load 32 sampleFs samplePath 1 0x100 0x200 (fun _ => 0xff)).2.mem image) ∧
    ∀ a ∈ (load 32 sampleFs samplePath 1 0x100 0x200 (fun _ => 0xff)).2.written,
      0x100 ≤ a ∧ a < 0x200 := by
  obtain ⟨hw, -, hloaded⟩ := load_confined_and_exact (.inl rfl) sampleFs_serves samplePath 1
    0x100 0x200 (fun _ => 0xff)
  have hdone : (load 32 sampleFs samplePath 1 0x100 0x200 (fun _ => 0xff)).1 =
      .done ⟨0x100, 1, 62, [⟨1, 60, 0x100, 2, 4, 5, 0, 0⟩]⟩ := by decide +kernel
  exact ⟨⟨_, hdone, hloaded _ hdone⟩, hw⟩

end System1.Sprg

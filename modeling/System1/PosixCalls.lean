/-
Every descriptor call is matched by a step of the reference model.

The lemmas of this file start where the current process has its table, in both models.
`Matches` is the statement of each: for some answers of the oracle the model gives the
same answer and ends in a related state.
-/
import System1.PosixRefines

set_option autoImplicit false

namespace System1.Posix

open System1.Lib System1.Fd System1.Ramfs Function Vfs

variable {τ : Type}

variable {n : Nat}

theorem toInt_of_lt (h : n < 2 ^ 31) : toInt n = n := by
  unfold toInt
  omega

/-- An oracle that hands out, creates and removes nothing. -/
def Oracle.quiet (std : Option (DescIx × DescIx × DescIx)) : Oracle where
  std := std
  opened := .error .NOT_FOUND
  created := none
  fresh := none
  storage := true
  device_read := .error .NOT_FOUND
  device_write := .error .NOT_FOUND
  device_size := .error .NOT_FOUND
  tty_line := (0, [])
  child := none
  spawned := false
  next := initialSlot
  zombie := false
  path_rc := .ok ()
  removed := none

/-- The oracle only answers for devices, the terminal and the storage. -/
structure Oracle.Quiet (o : Oracle) (std : Option (DescIx × DescIx × DescIx)) : Prop where
  std : o.std = std
  created : o.created = none
  fresh : o.fresh = none
  removed : o.removed = none

/-- A call that ends with `answer` in `k'` is matched by the model's `call`. -/
def Matches {α : Type} (std : Option (DescIx × DescIx × DescIx)) (k' : Sys τ) (answer : α)
    (call : Oracle → α × Ref) : Prop :=
  ∃ o, Oracle.Quiet o std ∧ (call o).1 = answer ∧ Good k' ∧ Rel k' (call o).2

variable {α : Type}

section

variable {std : Option (DescIx × DescIx × DescIx)}

/-- An oracle that answers as the call does shows the match. -/
theorem Matches.of {k' : Sys τ} {s : Ref} {answer : α} {call : Oracle → α × Ref} {o : Oracle}
    (hq : o.Quiet std) (hcall : call o = (answer, s)) (g : Good k') (h : Rel k' s) :
    Matches std k' answer call := by
  refine ⟨o, hq, ?_, g, ?_⟩
  · rw [hcall]
  · rw [hcall]
    exact h

/-- A call that changes nothing, whatever the oracle says. -/
theorem Matches.still {k : Sys τ} {r : Ref} {answer : α} {call : Oracle → α × Ref} (g : Good k)
    (h : Rel k r) (hcall : ∀ o, call o = (answer, r)) :
    Matches std k answer call :=
  .of (o := .quiet std) ⟨rfl, rfl, rfl, rfl⟩ (hcall _) g h

end

/-- A device answers, and only the devices change. -/
theorem rel_device {k : Sys τ} {r : Ref} (h : Rel k r) (dev : τ) :
    Rel { k with fs := { k.fs with dev := dev } } r := h.below rfl

theorem good_device {k : Sys τ} (g : Good k) (dev : τ) :
    Good { k with fs := { k.fs with dev := dev } } := g.below g.inv fun _ h => h

variable {f : FdIx}

theorem setEntry_eq_self {r : Ref} {e : Option DescIx} (h : (r.table r.current).entries f = e) :
    r.setEntry f e = r := by
  unfold Ref.setEntry Ref.setTable
  rw [← h, update_eq_self, update_eq_self]

theorem setEntry_setEntry (r : Ref) (f : FdIx) (e e' : Option DescIx) :
    (r.setEntry f e).setEntry f e' = r.setEntry f e' := by
  unfold Ref.setEntry Ref.setTable
  simp

/-- What the oracle has to keep to in an open. -/
structure Oracle.Opens (o : Oracle) (std : Option (DescIx × DescIx × DescIx)) (r : Ref)
    (opened : Except FsErr Nat) (flags : Nat) : Prop where
  std : o.std = std
  removed : o.removed = none
  opens : o.opened = opened
  fresh : ∀ i, o.fresh = some i → ¬ r.Named i
  created : ∀ n, o.created = some n → r.file n = none ∧ isPseudo n = false ∧
    flags &&& FS_O_CREAT ≠ 0
  node : ∀ n, opened = .ok n →
    isPseudo n = true ∨ (openFiles r.file o.created opened flags n).isSome

/-- Opening a path creates and empties files, but removes none. -/
theorem openFiles_isSome {file : Nat → Option (List UInt8)} (hn : (file n).isSome)
    (created : Option Nat) (opened : Except FsErr Nat) (flags : Nat) :
    (openFiles file created opened flags n).isSome := by
  have hupdate : ∀ (file : Nat → Option (List UInt8)) (m : Nat), (file n).isSome →
      (update file m (some []) n).isSome := by grind
  have hopened : ∀ file : Nat → Option (List UInt8), (file n).isSome →
      (openFiles file none opened flags n).isSome := by
    intro file hn
    unfold openFiles
    cases opened with
    | error rc => exact hn
    | ok m => grind
  cases created with
  | none => exact hopened file hn
  | some m => exact hopened _ (hupdate file m hn)

/-- Closing the node of an open that then fails changes nothing. -/
theorem closeNode_eq (P : Vfs.Devices τ) (k : Sys τ) (n : Nat) (rc : Int) :
    closeNode (rootOps P) k n rc = (rc, k) := by
  unfold closeNode
  rw [fs_core_close_pure]

variable {i : DescIx}

section Calls

variable {P : Vfs.Devices τ} {k k1 : Sys τ} {r : Ref}
  (std : Option (DescIx × DescIx × DescIx)) (hk : fd_core_init (rootOps P) k = k1)
  (g : Good k1) (h : Rel k1 r)

include hk g h

/-! ## Reading -/

/-- `read` at a descriptor of a file, of the terminal or of neither, one case for each. -/
theorem read_sim (fd : Int) (count : Nat) :
    Matches std (fd_core_read (rootOps P) k fd count).2
      (fd_core_read (rootOps P) k fd count).1 fun o => r.read o fd count := by
  unfold fd_core_read Ref.read
  rw [hk]
  simp only [h.lookup g fd]
  cases hl : fd_lookup k1 k1.g_current_process fd with
  | none => exact .still g h fun _ => rfl
  | some x =>
  obtain ⟨f, i⟩ := x
  have hi := names_of_lookup hl
  have hd := h.descr i hi
  simp only [hd, view]
  by_cases hcount : count = 0
  · simp only [hcount, if_true]
    exact .still g h fun _ => rfl
  simp only [hcount, if_false]
  by_cases htty : (k1.g_descriptions i).kind = .TTY_IN
  · simp only [htty, if_true]
    exact ⟨{ Oracle.quiet std with tty_line := (P.tty_readline k1.fs.dev count).1 },
      ⟨rfl, rfl, rfl, rfl⟩, rfl, good_device g _, rel_device h _⟩
  simp only [htty, if_false]
  by_cases hvfs : (k1.g_descriptions i).kind ≠ .VFS
  · simp only [if_pos hvfs, if_pos (Or.inl hvfs)]
    exact .still g h fun _ => rfl
  simp only [if_neg hvfs]
  by_cases hacc : (k1.g_descriptions i).flags &&& FS_O_RDWR = FS_O_WRONLY
  · simp only [if_pos hacc, if_pos (Or.inr hacc)]
    exact .still g h fun _ => rfl
  simp only [if_neg hacc, if_neg (not_or.mpr ⟨hvfs, hacc⟩)]
  -- the description refers to a device or to a file that is there
  rcases fs_core_read_eq (P := P) g.inv (g.node i hi (Decidable.not_not.mp hvfs))
      (k1.g_descriptions i).offset count with ⟨hp, dev, heq⟩ | ⟨hp, b, hb, hcap, heq⟩
  · rw [heq]
    refine ⟨{ Oracle.quiet std with device_read := (P.pseudo_fs_read k1.fs.dev
      (k1.g_descriptions i).node_id (k1.g_descriptions i).offset count).1 },
      ⟨rfl, rfl, rfl, rfl⟩, ?_⟩
    unfold Ref.readVfs
    simp only [hd, view, hp, if_true]
    cases (P.pseudo_fs_read k1.fs.dev (k1.g_descriptions i).node_id
        (k1.g_descriptions i).offset count).1 with
    | error rc => exact ⟨rfl, good_device g dev, rel_device h dev⟩
    | ok bytes =>
      exact ⟨rfl, g.moved i _ rfl rfl rfl rfl (fun _ => u32_lt _) g.inv fun _ hm => hm,
        h.moved i _ _ h.file⟩
  rw [heq]
  refine ⟨.quiet std, ⟨rfl, rfl, rfl, rfl⟩, ?_⟩
  unfold Ref.readVfs
  simp only [hd, view, hp, Bool.false_eq_true, if_false, h.file, hb]
  have hlen := length_readAt b (k1.g_descriptions i).offset count
  have hoff := g.offset i hi hp
  unfold FILE_CAP at hcap
  -- the offset only moves inside the file, so nothing wraps
  have hwrap : u32 ((k1.g_descriptions i).offset +
      (readAt b (k1.g_descriptions i).offset count).length) =
      (k1.g_descriptions i).offset + (readAt b (k1.g_descriptions i).offset count).length :=
    u32_of_lt (by omega)
  have hint : toInt (readAt b (k1.g_descriptions i).offset count).length =
      (readAt b (k1.g_descriptions i).offset count).length := toInt_of_lt (by omega)
  rw [hint, hwrap]
  exact ⟨rfl, g.moved i k1.fs rfl rfl rfl rfl (fun _ => by dsimp only; omega) g.inv
    fun _ hm => hm, h.moved i _ k1.fs h.file⟩

/-! ## Writing -/

omit hk g in
/-- Asking for the size changes only the devices. -/
theorem size_sim (hn : Closable k1.fs.root n) :
    ∃ dev, ((rootOps P).fs_core_size k1.fs n).2 = { k1.fs with dev := dev } ∧
      (∀ o : Oracle, o.device_size = (P.pseudo_fs_size k1.fs.dev n).1 →
        r.size o n = ((rootOps P).fs_core_size k1.fs n).1) ∧
      (isPseudo n = false → ∃ b, filesOf k1.fs.root n = some b ∧
        ((rootOps P).fs_core_size k1.fs n).1 = .ok b.length) := by
  obtain ⟨dev, hdev, hsize⟩ := fs_core_size_eq (P := P) hn
  refine ⟨dev, hdev, fun o ho => ?_, fun hp => ?_⟩
  · unfold Ref.size
    rcases hsize with ⟨hp, heq⟩ | ⟨b, hp, hb, heq⟩
    · rw [if_pos hp, ho, heq]
    · rw [if_neg (by rw [hp]; decide), h.file, hb, heq]
  · grind

omit hk in
/-- Where an open or a write starts. -/
theorem place_sim (n flags offset : Nat) (hn : Closable k1.fs.root n) :
    ∃ dev, (fd_start_offset (rootOps P) k1 n flags offset).2 =
        { k1 with fs := { k1.fs with dev := dev } } ∧
      (∀ o : Oracle, o.device_size = (P.pseudo_fs_size k1.fs.dev n).1 →
        r.place o ⟨.VFS, n, offset, flags⟩ =
          (fd_start_offset (rootOps P) k1 n flags offset).1) ∧
      (∀ m, isPseudo n = false →
        (fd_start_offset (rootOps P) k1 n flags offset).1 = .ok m →
        m = offset ∨ m ≤ FILE_CAP) := by
  unfold fd_start_offset Ref.place
  by_cases happ : flags &&& FS_O_APPEND ≠ 0
  · rw [if_pos happ]
    obtain ⟨dev, hdev, hsize, hfile⟩ := size_sim (P := P) h hn
    refine ⟨dev, by rw [hdev], fun o ho => ?_, fun m hp hm => ?_⟩
    · rw [if_pos happ]
      exact hsize o ho
    · obtain ⟨b, hb, heq⟩ := hfile hp
      rw [heq] at hm
      cases hm
      exact .inr (length_filesOf_le g.inv hb)
  · rw [if_neg happ]
    grind

/-- `write`: the bytes go to the file at the offset of the description, and the reference is
told how many did. The cases are those of the code: no descriptor, the terminal, a device,
and a file that is full, appended to or written in place. -/
theorem write_sim (fd : Int) (buffer : List UInt8) :
    Matches std (fd_core_write (rootOps P) k fd buffer).2
      (fd_core_write (rootOps P) k fd buffer).1 fun o => r.write o fd buffer := by
  unfold fd_core_write Ref.write
  rw [hk]
  simp only [h.lookup g fd]
  cases hl : fd_lookup k1 k1.g_current_process fd with
  | none => exact .still g h fun _ => rfl
  | some x =>
  obtain ⟨f, i⟩ := x
  have hi := names_of_lookup hl
  have hd := h.descr i hi
  simp only [hd, view]
  by_cases hzero : buffer.length = 0
  · simp only [hzero, if_true]
    exact .still g h fun _ => rfl
  simp only [hzero, if_false]
  by_cases htty : (k1.g_descriptions i).kind = .TTY_OUT
  · simp only [htty, if_true]
    exact .still (good_device g _) (rel_device h _) fun _ => rfl
  simp only [htty, if_false]
  by_cases hvfs : (k1.g_descriptions i).kind ≠ .VFS
  · simp only [if_pos hvfs, if_pos (Or.inl hvfs)]
    exact .still g h fun _ => rfl
  simp only [if_neg hvfs]
  by_cases hacc : (k1.g_descriptions i).flags &&& FS_O_RDWR = FS_O_RDONLY
  · simp only [if_pos hacc, if_pos (Or.inr hacc)]
    exact .still g h fun _ => rfl
  simp only [if_neg hacc, if_neg (not_or.mpr ⟨hvfs, hacc⟩)]
  have hvfs' := Decidable.not_not.mp hvfs
  have hnode := g.node i hi hvfs'
  obtain ⟨dev, hdev, hplace, hbound⟩ := place_sim (P := P) g h (k1.g_descriptions i).node_id
    (k1.g_descriptions i).flags (k1.g_descriptions i).offset hnode
  rw [← hvfs'] at hplace
  cases hstart : fd_start_offset (rootOps P) k1 (k1.g_descriptions i).node_id
      (k1.g_descriptions i).flags (k1.g_descriptions i).offset with
  | mk res k2 =>
  rw [hstart] at hdev hplace hbound
  dsimp only at hdev hplace hbound
  subst hdev
  have hquiet : ∀ (device_write : Except FsErr Nat) (storage : Bool), ∃ o : Oracle,
      o.Quiet std ∧ o.device_write = device_write ∧ o.storage = storage ∧
      r.place o (view (k1.g_descriptions i)) = res := by
    intro device_write storage
    exact ⟨{ Oracle.quiet std with
      device_size := (P.pseudo_fs_size k1.fs.dev (k1.g_descriptions i).node_id).1
      device_write := device_write
      storage := storage }, ⟨rfl, rfl, rfl, rfl⟩, rfl, rfl, hplace _ rfl⟩
  cases res with
  | error rc =>
    obtain ⟨o, hq, -, -, hpl⟩ := hquiet (.error .NOT_FOUND) true
    refine .of hq (s := r) ?_ (good_device g dev) (rel_device h dev)
    unfold Ref.writeVfs
    rw [hd]
    dsimp only
    rw [hpl]
  | ok offset =>
  have hne : buffer ≠ [] := fun hnil => hzero (by rw [hnil]; rfl)
  have hoff : isPseudo (k1.g_descriptions i).node_id = false → offset < 2 ^ 32 := by
    intro hp
    have hd := g.offset i hi hp
    grind [FILE_CAP]
  dsimp only
  rw [setDesc_fs]
  rcases fs_core_write_cases (s := { k1.fs with dev := dev }) (P := P) g.inv hnode offset hne with
    ⟨hp, dev', heq⟩ | ⟨hp, b, hb, hfile⟩
  · -- a device
    obtain ⟨o, hq, hw, -, hpl⟩ := hquiet
      (P.pseudo_fs_write dev (k1.g_descriptions i).node_id offset buffer).1 true
    have hcall' : r.writeVfs o i buffer = r.writeDevice o i offset := by
      unfold Ref.writeVfs
      rw [hd]
      dsimp only
      rw [hpl]
      exact if_pos hp
    unfold Ref.writeDevice at hcall'
    rw [hd, hw] at hcall'
    rw [heq]
    cases hres : (P.pseudo_fs_write dev (k1.g_descriptions i).node_id offset buffer).1 with
    | error rc =>
      rw [hres] at hcall'
      exact .of hq hcall' (g.moved i _ rfl rfl rfl rfl hoff g.inv fun _ hm => hm)
        (h.moved i _ _ h.file)
    | ok n =>
      rw [hres] at hcall'
      dsimp only
      rw [setDesc_setDesc]
      exact .of hq hcall' (g.moved i _ rfl rfl rfl rfl (fun _ => u32_lt _) g.inv fun _ hm => hm)
        (h.moved i _ _ h.file)
  -- a file: the write fails and changes nothing, or replaces its range
  have hwr : ∀ o : Oracle, r.place o (view (k1.g_descriptions i)) = .ok offset →
      r.writeVfs o i buffer = r.writeFile o i b offset buffer := by
    intro o hpl
    unfold Ref.writeVfs
    rw [hd]
    dsimp only
    rw [hpl]
    have hnot : ¬ isPseudo (view (k1.g_descriptions i)).node = true :=
      ne_true_of_eq_false hp
    dsimp only
    rw [if_neg hnot, h.file,
      show filesOf k1.fs.root (view (k1.g_descriptions i)).node = some b from hb]
  unfold Ref.writeFile at hwr
  rcases hfile with ⟨hbig, heq⟩ | ⟨hfit, hempty, heq⟩ | ⟨hfit, root, heq, hinv, hfiles⟩
  · obtain ⟨o, hq, -, -, hpl⟩ := hquiet (.error .NOT_FOUND) true
    have hcall' := hwr o hpl
    rw [if_pos (.inl hbig), hd] at hcall'
    rw [heq]
    exact .of hq hcall' (g.moved i _ rfl rfl rfl rfl hoff g.inv fun _ hm => hm)
      (h.moved i _ _ h.file)
  · obtain ⟨o, hq, -, hst, hpl⟩ := hquiet (.error .NOT_FOUND) false
    have hcall' := hwr o hpl
    rw [if_pos (.inr ⟨hempty, hst⟩), hd] at hcall'
    rw [heq]
    exact .of hq hcall' (g.moved i _ rfl rfl rfl rfl hoff g.inv fun _ hm => hm)
      (h.moved i _ _ h.file)
  obtain ⟨o, hq, -, hst, hpl⟩ := hquiet (.error .NOT_FOUND) true
  have hcall' := hwr o hpl
  rw [if_neg (by rw [hst]; rintro (hbig | ⟨-, hno⟩); exacts [by omega, by cases hno]), hd]
    at hcall'
  rw [heq]
  dsimp only
  unfold FILE_CAP at hfit
  rw [setDesc_setDesc, u32_of_lt (by omega), toInt_of_lt (by omega)]
  refine .of hq hcall' (g.moved i _ rfl rfl rfl rfl (fun _ => by dsimp only; omega) hinv ?_)
    (h.moved i _ _ ?_)
  · intro m hm
    show (filesOf root m).isSome
    rw [hfiles]
    grind
  · show _ = filesOf root
    rw [hfiles, h.file]
    rfl

/-! ## Seeking -/

omit hk g in
/-- What a seek is counted from. -/
theorem base_sim (hn : Closable k1.fs.root (k1.g_descriptions i).node_id) (whence : Nat) :
    ∃ dev, (fd_seek_base (rootOps P) k1 (k1.g_descriptions i) whence).2 =
        { k1 with fs := { k1.fs with dev := dev } } ∧
      ∀ o : Oracle, o.device_size = (P.pseudo_fs_size k1.fs.dev (k1.g_descriptions i).node_id).1 →
        r.base o (view (k1.g_descriptions i)) whence =
          (fd_seek_base (rootOps P) k1 (k1.g_descriptions i) whence).1 := by
  unfold fd_seek_base Ref.base
  by_cases hset : whence = FS_SEEK_SET
  · simp only [if_pos hset]
    exact ⟨k1.fs.dev, rfl, fun _ _ => trivial⟩
  simp only [if_neg hset]
  by_cases hcur : whence = FS_SEEK_CUR
  · simp only [if_pos hcur]
    exact ⟨k1.fs.dev, rfl, fun _ _ => rfl⟩
  simp only [if_neg hcur]
  by_cases hend : whence = FS_SEEK_END
  · simp only [if_pos hend]
    obtain ⟨dev, hdev, hsize, -⟩ := size_sim (P := P) h hn
    cases hres : (rootOps P).fs_core_size k1.fs (k1.g_descriptions i).node_id with
    | mk res fs =>
    rw [hres] at hdev hsize
    dsimp only at hdev hsize
    subst hdev
    refine ⟨dev, by cases res <;> rfl, fun o ho => ?_⟩
    rw [show (view (k1.g_descriptions i)).node = (k1.g_descriptions i).node_id from rfl,
      hsize o ho]
    cases res <;> rfl
  · simp only [if_neg hend]
    exact ⟨k1.fs.dev, rfl, fun _ _ => trivial⟩

/-- `lseek`: the oracle knows the size of the file, and both compute the same offset. -/
theorem lseek_sim (fd offset : Int) (whence : Nat) :
    Matches std (fd_core_lseek (rootOps P) k fd offset whence).2
      (fd_core_lseek (rootOps P) k fd offset whence).1
      fun o => r.lseek o fd offset whence := by
  unfold fd_core_lseek Ref.lseek
  rw [hk]
  simp only [h.lookup g fd]
  cases hl : fd_lookup k1 k1.g_current_process fd with
  | none => exact .still g h fun _ => rfl
  | some x =>
  obtain ⟨f, i⟩ := x
  have hi := names_of_lookup hl
  simp only [h.descr i hi]
  by_cases hvfs : (k1.g_descriptions i).kind ≠ .VFS
  · rw [if_pos hvfs]
    exact .still g h fun _ => if_pos hvfs
  have hnot : ¬ (view (k1.g_descriptions i)).kind ≠ .VFS := hvfs
  simp only [if_neg hvfs, if_neg hnot]
  have hnode := g.node i hi (Decidable.not_not.mp hvfs)
  obtain ⟨dev, hdev, hbase⟩ := base_sim (P := P) h hnode whence
  cases hres : fd_seek_base (rootOps P) k1 (k1.g_descriptions i) whence with
  | mk res k2 =>
  rw [hres] at hdev hbase
  dsimp only at hdev hbase
  subst hdev
  obtain ⟨o, hq, hb⟩ : ∃ o : Oracle, o.Quiet std ∧
      r.base o (view (k1.g_descriptions i)) whence = res :=
    ⟨{ Oracle.quiet std with
      device_size := (P.pseudo_fs_size k1.fs.dev (k1.g_descriptions i).node_id).1 },
      ⟨rfl, rfl, rfl, rfl⟩, hbase _ rfl⟩
  cases res with
  | error rc => exact .of hq (s := r) (by simp only [hb]) (good_device g dev) (rel_device h dev)
  | ok base =>
  dsimp only
  split
  · next hneg =>
    exact .of hq (s := r) (by simp only [hb, if_pos hneg]) (good_device g dev) (rel_device h dev)
  next hneg =>
  have hlt : (toInt (base + offset)).toNat < 2 ^ 32 := by
    unfold toInt
    omega
  exact .of hq (by simp only [hb, if_neg hneg]; rfl)
    (g.moved i _ rfl rfl rfl rfl (fun _ => hlt) g.inv fun _ hm => hm) (h.moved i _ _ h.file)

/-! ## Closing and duplicating -/

omit hk g in
/-- One entry of the current process changes, and no flag. -/
theorem table_sim {k2 : Sys τ} {e : Option DescIx} (hframe : Frame k1 k2)
    (htabs : k2.tabs = update k1.tabs k1.g_current_process
      (update (k1.tabs k1.g_current_process) f e)) :
    (r.setEntry f e).table = k2.table := by
  funext q
  show _ = FdTable.mk (k2.tabs q) (k2.table q).initialized
  rw [htabs, hframe.initialized q]
  unfold Ref.setEntry Ref.setTable
  dsimp only
  rw [h.current, h.table]
  by_cases hq : q = k1.g_current_process
  · rw [hq, update_self, update_self]
    rfl
  · rw [update_of_ne hq, update_of_ne hq]
    rfl

omit hk g h in
/-- What is named then was named before, or is the new entry. -/
theorem names_update {k2 : Sys τ} {e : Option DescIx} {j : DescIx}
    (htabs : k2.tabs = update k1.tabs k1.g_current_process
      (update (k1.tabs k1.g_current_process) f e)) (hj : Names k2 j) :
    Names k1 j ∨ e = some j := by
  obtain ⟨q, f', hj⟩ := hj
  rw [htabs] at hj
  by_cases hq : q = k1.g_current_process
  · rw [hq, update_self] at hj
    by_cases hf : f' = f
    · rw [hf, update_self] at hj
      exact .inr hj
    · rw [update_of_ne hf] at hj
      exact .inl ⟨_, _, hj⟩
  · rw [update_of_ne hq] at hj
    exact .inl ⟨_, _, hj⟩

omit hk in
/-- The descriptions that are still named keep everything but their counts. -/
theorem entry_sim {k2 : Sys τ} {e : Option DescIx} (hrefs : ∃ leak, Refs leak k2)
    (hframe : Frame k1 k2) (htabs : k2.tabs = update k1.tabs k1.g_current_process
      (update (k1.tabs k1.g_current_process) f e)) (hfs : k2.fs = k1.fs)
    (hview : ∀ j, Names k2 j → Names k1 j ∧
      view (k2.g_descriptions j) = view (k1.g_descriptions j)) :
    Good k2 ∧ Rel k2 (r.setEntry f e) :=
  tables_sim g h hrefs hfs hview (table_sim h hframe htabs) (h.current.trans hframe.current.symm)
    rfl rfl

omit hk in
/-- A release empties the entry and answers 0: what is behind it can be closed. -/
theorem release_sim (he : k1.tabs k1.g_current_process f = some i) :
    (fd_release_entry (rootOps P) k1 k1.g_current_process f).1 = 0 ∧
    Frame k1 (fd_release_entry (rootOps P) k1 k1.g_current_process f).2 ∧
    Good (fd_release_entry (rootOps P) k1 k1.g_current_process f).2 ∧
    Rel (fd_release_entry (rootOps P) k1 k1.g_current_process f).2
      (r.setEntry f none) := by
  obtain ⟨leak, hrefs⟩ := g.refs
  obtain ⟨hrel, hinv, hrc⟩ := fd_release_entry_spec (rootOps P) hrefs he
  obtain ⟨l, hcl⟩ := hrel.closes
  refine ⟨?_, hrel.frame, entry_sim g h ⟨leak, hinv.refs_of_frame hrel.frame⟩ hrel.frame hrel.tabs
    (hrel.fs fs_core_close_pure) ?_⟩
  · rcases hrc with hrc | ⟨rc, herr, -, hkind, -⟩
    · exact hrc
    · rw [fs_core_close_ok (g.node i ⟨_, _, he⟩ hkind)] at herr
      cases herr
  · rintro j ⟨q, f', hj⟩
    refine ⟨(names_update hrel.tabs ⟨q, f', hj⟩).resolve_right nofun, ?_⟩
    rw [(hcl.keep j (hinv.named hj)).2]
    rfl

/-- `close`: the name goes, and the description with its last name. -/
theorem close_sim (fd : Int) :
    Matches std (fd_core_close (rootOps P) k fd).2
      (fd_core_close (rootOps P) k fd).1 fun _ => r.close fd := by
  unfold fd_core_close Ref.close
  dsimp only
  rw [hk, h.lookup g fd]
  cases hl : fd_lookup k1 k1.g_current_process fd with
  | none => exact .still g h fun _ => rfl
  | some x =>
    obtain ⟨f, i⟩ := x
    obtain ⟨hrc, -, g', h'⟩ := release_sim (P := P) g h (fd_lookup_some hl).2
    exact .still g' h' fun _ => by rw [hrc]

omit hk in
/-- A free entry is made to share a named description. -/
theorem share_sim {old : FdIx} (hfree : k1.tabs k1.g_current_process f = none)
    (hold : k1.tabs k1.g_current_process old = some i) :
    Good ((k1.setEntry k1.g_current_process f (some i)).addRef i) ∧
    Rel ((k1.setEntry k1.g_current_process f (some i)).addRef i) (r.setEntry f (some i)) := by
  obtain ⟨leak, hrefs⟩ := g.refs
  have hframe := Frame.addRef k1 k1.g_current_process f (some i) i
  have hsame := SameUpToRefs.addRef k1 k1.g_current_process f (some i) i
  refine entry_sim g h ⟨leak, RefsInv.refs_of_frame (RefsInv.share hrefs hfree
    (RefsInv.named hrefs hold) fun _ => ⟨old, hold⟩) hframe⟩ hframe (setEntry_tabs k1 _ f (some i))
    rfl ?_
  intro j hj
  refine ⟨?_, by rw [hsame.desc j]; rfl⟩
  obtain hj | hj := names_update (setEntry_tabs k1 _ f (some i)) hj
  · exact hj
  · cases hj
    exact ⟨_, _, hold⟩

/-- `dup` takes the lowest free descriptor on both sides. -/
theorem dup_sim (oldfd : Int) :
    Matches std (fd_core_dup (rootOps P) k oldfd).2
      (fd_core_dup (rootOps P) k oldfd).1 fun _ => r.dup oldfd := by
  unfold fd_core_dup Ref.dup
  dsimp only
  rw [hk, h.lookup g oldfd, h.lowest]
  cases hl : fd_lookup k1 k1.g_current_process oldfd with
  | none => exact .still g h fun _ => rfl
  | some x =>
  obtain ⟨old, i⟩ := x
  have hold := (fd_lookup_some hl).2
  cases hfree : fd_find_free k1 k1.g_current_process with
  | none => exact .still g h fun _ => rfl
  | some f =>
    dsimp only
    rw [show (k1.table k1.g_current_process).entries old = some i from hold]
    obtain ⟨g', h'⟩ := share_sim g h (fd_find_free_some hfree) hold
    exact .still g' h' fun _ => rfl

/-- `dup2`: what `newfd` named is given up first, unless the two are the same. -/
theorem dup2_sim (oldfd newfd : Int) :
    Matches std (fd_core_dup2 (rootOps P) k oldfd newfd).2
      (fd_core_dup2 (rootOps P) k oldfd newfd).1 fun _ => r.dup2 oldfd newfd := by
  unfold fd_core_dup2 Ref.dup2
  dsimp only
  rw [hk, h.lookup g oldfd]
  cases hl : fd_lookup k1 k1.g_current_process oldfd with
  | none => exact .still g h fun _ => rfl
  | some x =>
  obtain ⟨old, i⟩ := x
  obtain ⟨hfold, hold⟩ := fd_lookup_some hl
  cases hnew : fdIx newfd with
  | none => exact .still g h fun _ => rfl
  | some new =>
  by_cases heq : oldfd = newfd
  · simp only [if_pos heq]
    exact .still g h fun _ => rfl
  simp only [if_neg heq]
  have hne : old ≠ new := by
    intro hon
    rw [fdIx_val hfold, fdIx_val hnew, hon] at heq
    exact heq rfl
  -- the target is released first when it is taken; then it is free
  obtain ⟨k2, hk2, hframe, g2, h2⟩ : ∃ k2,
      (if ((k1.table k1.g_current_process).entries new).isSome then
        fd_release_entry (rootOps P) k1 k1.g_current_process new else (0, k1)) =
          (0, k2) ∧ Frame k1 k2 ∧ Good k2 ∧ Rel k2 (r.setEntry new none) := by
    cases hent : (k1.table k1.g_current_process).entries new with
    | none =>
      refine ⟨k1, by rw [if_neg (by simp)], .refl k1, g, ?_⟩
      rw [setEntry_eq_self (by rw [h.table, h.current]; exact hent)]
      exact h
    | some j =>
      obtain ⟨hrc, hframe, g2, h2⟩ := release_sim (P := P) g h hent
      exact ⟨_, by rw [if_pos (by simp)]; exact Prod.ext hrc rfl, hframe, g2, h2⟩
  rw [hk2]
  dsimp only
  rw [if_neg (by decide), ← hframe.current]
  -- the tables of the model show that the entries of the kernel are as expected
  have hentry : ∀ f, k2.tabs k2.g_current_process f =
      if f = new then none else k1.tabs k1.g_current_process f := by
    intro f
    show (k2.table k2.g_current_process).entries f = _
    rw [← h2.table, hframe.current, ← h.current]
    simp only [Ref.setEntry, Ref.setTable, update_self, h.table]
    by_cases hf : f = new
    · rw [hf, if_pos rfl]
      exact update_self ..
    · rw [if_neg hf]
      exact update_of_ne hf ..
  have hold2 : k2.tabs k2.g_current_process old = some i := by
    rw [hentry, if_neg hne, hold]
  rw [show (k2.table k2.g_current_process).entries old = some i from hold2]
  obtain ⟨g3, h3⟩ := share_sim g2 h2 (f := new) (by rw [hentry, if_pos rfl]) hold2
  exact .still g3 h3 fun _ => by rw [setEntry_setEntry]

/-! ## Opening -/

omit hk g in
theorem named_iff (i : DescIx) : r.Named i ↔ Names k1 i := by
  unfold Ref.Named Names
  rw [h.table]
  rfl

omit hk in
/-- A free entry gets a description that was not in use. -/
theorem fresh_sim {offset : Nat} (flags : Nat) (hfree : k1.tabs k1.g_current_process f = none)
    (hun : (k1.g_descriptions i).used = false) (hn : Closable k1.fs.root n)
    (hoff : isPseudo n = false → offset < 2 ^ 32) :
    ¬ r.Named i ∧
    Good
      ((k1.setDesc i ⟨true, 1, .VFS, n, offset, flags⟩).setEntry k1.g_current_process f (some i)) ∧
    Rel ((k1.setDesc i ⟨true, 1, .VFS, n, offset, flags⟩).setEntry k1.g_current_process f (some i))
      ((r.setEntry f (some i)).setDescr i ⟨.VFS, n, offset, flags⟩) := by
  obtain ⟨leak, hrefs⟩ := g.refs
  have hasg := assigned_setEntry k1 k1.g_current_process f hun ⟨true, 1, .VFS, n, offset, flags⟩
  have hinv := RefsInv.fresh (d := ⟨true, 1, .VFS, n, offset, flags⟩) hrefs hun hfree rfl rfl
  generalize (k1.setDesc i ⟨true, 1, .VFS, n, offset, flags⟩).setEntry k1.g_current_process f
    (some i) = k2 at hasg hinv
  -- every other description was named before
  have hnamed : ∀ j, Names k2 j → j ≠ i → Names k1 j := by
    intro j hj hji
    exact (names_update hasg.tabs hj).resolve_right fun h => hji (Option.some.inj h).symm
  refine ⟨?_, ⟨⟨leak, hinv.refs_of_frame hasg.frame⟩, ?_, fun j hj hv => ?_, fun j hj hp => ?_⟩,
    table_sim h hasg.frame hasg.tabs, h.current.trans hasg.frame.current.symm, fun j hj => ?_, ?_⟩
  · intro hname
    obtain ⟨q, f', hj⟩ := (named_iff h i).mp hname
    rw [RefsInv.named hrefs hj] at hun
    cases hun
  · rw [hasg.fs]
    exact g.inv
  · rw [hasg.fs]
    by_cases hji : j = i
    · rw [hji, hasg.desc]
      exact hn
    · rw [hasg.other j hji] at hv ⊢
      exact g.node j (hnamed j hj hji) hv
  · by_cases hji : j = i
    · rw [hji, hasg.desc] at hp ⊢
      exact hoff hp
    · rw [hasg.other j hji] at hp ⊢
      exact g.offset j (hnamed j hj hji) hp
  · show update r.descr i _ j = _
    by_cases hji : j = i
    · rw [hji, update_self, hasg.desc]
      rfl
    · rw [update_of_ne hji, hasg.other j hji]
      exact h.descr j (hnamed j hj hji)
  · rw [hasg.fs]
    exact h.file

/-- `open`: the oracle says what the filesystem answered and which description was taken,
and the reference makes the rest of it. -/
theorem open_sim (path : CString) (flags : Nat) :
    ∃ o : Oracle, o.Opens std r (fs_core_open ramfsDriver k1.fs
        (k1.g_processes k1.g_current_process).cwd path flags).1 flags ∧
      (r.open_ o flags).1 = (fd_core_open (rootOps P) k path flags).1 ∧
      Good (fd_core_open (rootOps P) k path flags).2 ∧
      Rel (fd_core_open (rootOps P) k path flags).2 (r.open_ o flags).2 := by
  unfold fd_core_open
  dsimp only
  rw [hk]
  obtain ⟨created, hof⟩ := fs_core_open_openedFiles g.inv
    (k1.g_processes k1.g_current_process).cwd path flags
  rw [show (rootOps P).fs_core_open k1.fs (k1.g_processes k1.g_current_process).cwd path
    flags = fs_core_open ramfsDriver k1.fs (k1.g_processes k1.g_current_process).cwd path
    flags from rfl]
  cases hres : fs_core_open ramfsDriver k1.fs (k1.g_processes k1.g_current_process).cwd path
      flags with
  | mk opened fs =>
  rw [hres] at hof
  dsimp only at hof ⊢
  -- both models after the path has been opened
  have g2 : Good { k1 with fs := fs } := g.below hof.inv fun m hm => by
    rw [hof.files]
    exact openFiles_isSome hm _ _ _
  have h2 : Rel { k1 with fs := fs }
      { r with file := openFiles r.file created opened flags } := by
    refine ⟨h.table, h.current, h.descr, ?_⟩
    rw [h.file]
    exact hof.files.symm
  -- it remains to say what the oracle answers besides
  have hdone : ∀ (fresh : Option DescIx) (size : Except FsErr Nat) (answer : Int) (k' : Sys τ)
      (r' : Ref), (∀ i, fresh = some i → ¬ r.Named i) →
      (∀ o : Oracle, o.opened = opened → o.created = created → o.fresh = fresh →
        o.device_size = size → r.open_ o flags = (answer, r')) → Good k' → Rel k' r' →
      ∃ o : Oracle, o.Opens std r opened flags ∧ (r.open_ o flags).1 = answer ∧ Good k' ∧
        Rel k' (r.open_ o flags).2 := by
    intro fresh size answer k' r' hfresh hcall g' h'
    have heq := hcall { Oracle.quiet std with
      opened := opened, created := created, fresh := fresh, device_size := size } rfl rfl rfl rfl
    refine ⟨_, ⟨rfl, rfl, rfl, hfresh, ?_, ?_⟩, by rw [heq], g', by rw [heq]; exact h'⟩
    · intro n hn
      rw [h.file]
      exact hof.created_new n hn
    · intro n hn
      rcases hof.node n hn with ⟨hp, -⟩ | ⟨-, hfile⟩
      · exact .inl hp
      · rw [h.file, ← hof.files]
        exact .inr hfile
  cases opened with
  | error rc =>
    refine hdone none (.ok 0) _ _ _ (fun i hi => by cases hi) (fun o ho hc _ _ => ?_) g2 h2
    unfold Ref.open_
    simp [ho, hc]
  | ok n =>
  dsimp only
  obtain ⟨dev, hdev, hplace, hbound⟩ := place_sim (P := P) g2 h2 n flags 0 (hof.node n rfl)
  cases hstart : fd_start_offset (rootOps P) ({ k1 with fs := fs } : Sys τ) n flags 0 with
  | mk start k2 =>
  rw [hstart] at hdev hplace hbound
  dsimp only at hdev hplace hbound
  subst hdev
  have g3 := good_device g2 dev
  have h3 := rel_device h2 dev
  have hlowest := h2.lowest
  cases start with
  | error rc =>
    dsimp only
    rw [closeNode_eq]
    refine hdone none (P.pseudo_fs_size fs.dev n).1 _ _ _ (fun i hi => by cases hi)
      (fun o ho hc _ hs => ?_) g3 h3
    unfold Ref.open_
    simp [ho, hc, hplace o hs]
  | ok offset =>
  dsimp only
  have hfull : ∀ o : Oracle, o.opened = .ok n → o.created = created →
      o.device_size = (P.pseudo_fs_size fs.dev n).1 →
      fd_find_free k1 k1.g_current_process = none ∨ o.fresh = none →
      r.open_ o flags =
        (-POSIX_ENOSPC, { r with file := openFiles r.file created (.ok n) flags }) := by
    intro o ho hc hs hnone
    unfold Ref.open_
    simp only [ho, hc, hplace o hs, hlowest]
    split
    · next hf hi =>
      rcases hnone with hnone | hnone
      · cases hf.symm.trans hnone
      · cases hi.symm.trans hnone
    · rfl
  cases hfree : fd_find_free ({ k1 with fs := { fs with dev := dev } } : Sys τ)
      k1.g_current_process with
  | none =>
    rw [closeNode_eq]
    exact hdone none (P.pseudo_fs_size fs.dev n).1 _ _ _ (fun i hi => by cases hi)
      (fun o ho hc _ hs => hfull o ho hc hs (.inl hfree)) g3 h3
  | some f =>
  cases halloc : fd_alloc_description ({ k1 with fs := { fs with dev := dev } } : Sys τ) .VFS n
      flags offset with
  | none =>
    rw [closeNode_eq]
    exact hdone none (P.pseudo_fs_size fs.dev n).1 _ _ _ (fun i hi => by cases hi)
      (fun o ho hc hfresh hs => hfull o ho hc hs (.inr hfresh)) g3 h3
  | some x =>
  obtain ⟨i, k3⟩ := x
  obtain ⟨hun, rfl⟩ := fd_alloc_description_some halloc
  have hoff : isPseudo n = false → offset < 2 ^ 32 := by grind [FILE_CAP]
  obtain ⟨hnot, g4, h4⟩ := fresh_sim g3 h3 flags (fd_find_free_some hfree) hun (hof.node n rfl) hoff
  refine hdone (some i) (P.pseudo_fs_size fs.dev n).1 f.val _ _ ?_ (fun o ho hc hfresh hs => ?_)
    g4 h4
  · rintro j hj
    cases hj
    exact hnot
  · unfold Ref.open_
    simp [ho, hc, hplace o hs, hlowest.trans hfree, hfresh]

end Calls

end System1.Posix

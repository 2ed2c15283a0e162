/-
Doubly linked lists, seen as rings.

A doubly linked list that ends in null on both sides, with a head and a tail variable,
is a ring once the two variables are read as the links of null: the successor of null is
the head and its predecessor is the tail. Then every change of the list is the same: one
successor and one predecessor are stored, with no special case at the ends.

`Links` says that neighbours point at each other, `Ring` closes a list with its
sentinel. What a ring needs from memory is only the links of its own elements, so a
change elsewhere does not touch it.
-/
import Mathlib.Data.List.Basic
import Mathlib.Data.List.Nodup

set_option autoImplicit false

namespace System1.Lib

open Function List

variable {A : Type} {nxt prv nxt' prv' : A → A}

/-- Neighbours in the list are linked both ways. -/
def Links (nxt prv : A → A) : List A → Prop
  | x :: y :: l => nxt x = y ∧ prv y = x ∧ Links nxt prv (y :: l)
  | _ => True

@[simp] theorem links_singleton (x : A) : Links nxt prv [x] := trivial

variable {l : List A}

theorem links_cons_cons {x y : A} :
    Links nxt prv (x :: y :: l) ↔ nxt x = y ∧ prv y = x ∧ Links nxt prv (y :: l) := Iff.rfl

/-- The links of a concatenation: those of both parts, which share the seam. -/
theorem links_append (l : List A) (x : A) (m : List A) :
    Links nxt prv (l ++ x :: m) ↔ Links nxt prv (l ++ [x]) ∧ Links nxt prv (x :: m) := by
  induction l with
  | nil => simp
  | cons a l ih =>
    cases l with
    | nil => simp [links_cons_cons, and_assoc]
    | cons b l => simp_all [cons_append, links_cons_cons, and_assoc]

/-- Only the successors of all but the last and the predecessors of all but the first
are read. -/
theorem Links.congr (h : Links nxt prv l) (hn : ∀ x ∈ l.dropLast, nxt' x = nxt x)
    (hp : ∀ x ∈ l.tail, prv' x = prv x) :
    Links nxt' prv' l := by
  induction l with
  | nil => trivial
  | cons x l ih =>
    cases l with
    | nil => trivial
    | cons y l =>
      obtain ⟨hxy, hyx, hrest⟩ := h
      refine ⟨(hn x (by simp)).trans hxy, (hp y (by simp)).trans hyx, ih hrest ?_ ?_⟩
      · grind
      · intro z hz
        exact hp z (mem_of_mem_tail hz)

/-! ## Rings -/

/-- The list `l`, closed by the sentinel `z`. -/
def Ring (nxt prv : A → A) (z : A) (l : List A) : Prop := Links nxt prv (z :: (l ++ [z]))

/-- The element before a suffix. -/
theorem cons_eq_concat (z : A) (p : List A) : ∃ p', z :: p = p' ++ [p.getLastD z] := by
  rcases eq_nil_or_concat p with rfl | ⟨l, a, rfl⟩
  · exact ⟨[], rfl⟩
  · exact ⟨z :: l, by simp⟩

theorem concat_eq_cons (z : A) (q : List A) : ∃ q', q ++ [z] = q.headD z :: q' := by
  cases q with
  | nil => exact ⟨[], rfl⟩
  | cons a q => exact ⟨q ++ [z], rfl⟩

variable {z b : A} {p q : List A}

/-- The neighbours of an element. -/
theorem Ring.at (h : Ring nxt prv z (p ++ b :: q)) :
    prv b = p.getLastD z ∧ nxt b = q.headD z ∧ nxt (p.getLastD z) = b ∧ prv (q.headD z) = b := by
  obtain ⟨p', hp⟩ := cons_eq_concat z p
  obtain ⟨q', hq⟩ := concat_eq_cons z q
  unfold Ring at h
  rw [append_assoc, cons_append, hq, ← cons_append, hp, append_assoc,
    singleton_append, links_append] at h
  obtain ⟨-, hab, hba, hbc, hcb, -⟩ := h
  exact ⟨hba, hbc, hab, hcb⟩

/-- The neighbours of the sentinel. -/
theorem Ring.ends (h : Ring nxt prv z l) :
    nxt z = l.headD z ∧ prv z = l.getLastD z := by
  constructor
  · cases l with
    | nil => exact h.1
    | cons a l => exact h.1
  · rcases eq_nil_or_concat l with rfl | ⟨p, a, rfl⟩
    · exact h.2.1
    have hat := (Ring.at (p := p) (q := []) (by rw [← concat_eq_append]; exact h)).2.2.2
    rw [concat_eq_append, getLastD_concat]
    exact hat

theorem Ring.congr (h : Ring nxt prv z l) (hn : ∀ x ∈ z :: l, nxt' x = nxt x)
    (hp : ∀ x ∈ z :: l, prv' x = prv x) :
    Ring nxt' prv' z l := by
  refine Links.congr h (fun x hx => hn x ?_) (fun x hx => hp x ?_)
  · rw [← cons_append, dropLast_concat] at hx
    exact hx
  · grind

/-- What a change between `p` and `q` leaves alone: the part before and the part
after. -/
theorem Ring.outside {m : List A} (h : Ring nxt prv z (p ++ m ++ q)) (hnd : (z :: (p ++ q)).Nodup)
    (hn : ∀ x ∈ z :: (p ++ q), x ≠ p.getLastD z → nxt' x = nxt x)
    (hp : ∀ x ∈ z :: (p ++ q), x ≠ q.headD z → prv' x = prv x) :
    ∃ p' q', z :: p = p' ++ [p.getLastD z] ∧ q ++ [z] = q.headD z :: q' ∧
      Links nxt' prv' (p' ++ [p.getLastD z]) ∧ Links nxt' prv' (q.headD z :: q') := by
  obtain ⟨p', hp'⟩ := cons_eq_concat z p
  obtain ⟨q', hq'⟩ := concat_eq_cons z q
  refine ⟨p', q', hp', hq', ?_, ?_⟩
  · have hfront : Links nxt prv (p' ++ [p.getLastD z]) := by
      unfold Ring at h
      rw [append_assoc, append_assoc, ← cons_append, hp', append_assoc,
        singleton_append, links_append] at h
      exact h.1
    have hnd' : (p' ++ [p.getLastD z]).Nodup := by grind
    refine hfront.congr (fun x hx => ?_) (fun x hx => ?_)
    · grind
    · rw [← hp', tail_cons] at hx
      refine hp x (.tail _ (mem_append_left _ hx)) ?_
      -- what comes next is the sentinel or an element of `q`
      intro hxc
      cases q with
      | nil => grind
      | cons c q =>
        rw [hxc] at hx
        exact (disjoint_of_nodup_append (nodup_cons.mp hnd).2) hx (.head _)
  · have hback : Links nxt prv (q.headD z :: q') := by
      unfold Ring at h
      rw [append_assoc, hq', ← cons_append, links_append] at h
      exact h.2
    have hnd' : (q.headD z :: q').Nodup := by
      rw [← hq', nodup_append_comm]
      exact hnd.sublist (List.Sublist.cons_cons z (sublist_append_right p q))
    refine hback.congr (fun x hx => ?_) (fun x hx => ?_)
    · rw [← hq', dropLast_concat] at hx
      refine hn x (.tail _ (mem_append_right _ hx)) ?_
      intro hxa
      have hmem : p.getLastD z ∈ z :: p := by
        rw [hp']
        exact mem_append_right _ (mem_singleton.mpr rfl)
      grind
    · rw [tail_cons] at hx
      refine hp x ?_ ?_
      · grind
      · rintro rfl
        exact (nodup_cons.mp hnd').1 hx

theorem getLastD_mem (z : A) (p : List A) : p.getLastD z ∈ z :: p := by
  obtain ⟨p', hp⟩ := cons_eq_concat z p
  rw [hp]
  simp

theorem headD_mem (z : A) (q : List A) : q.headD z ∈ z :: q := by
  cases q <;> simp

section Edits

variable (hnd : (z :: (p ++ b :: q)).Nodup)

include hnd

theorem nodup_without : (z :: (p ++ q)).Nodup :=
  hnd.sublist (List.Sublist.cons_cons z ((List.Sublist.refl p).append (sublist_cons_self b q)))

variable [DecidableEq A]

/-- An element is taken out: its neighbours are linked to each other. -/
theorem Ring.remove (h : Ring nxt prv z (p ++ b :: q)) :
    Ring (update nxt (p.getLastD z) (q.headD z))
      (update prv (q.headD z) (p.getLastD z)) z (p ++ q) := by
  obtain ⟨p', q', hp', hq', hfront, hback⟩ :=
    Ring.outside (m := [b]) (by simpa using h) (nodup_without hnd)
      (fun x _ hx => update_of_ne hx (q.headD z) nxt)
      fun x _ hx => update_of_ne hx (p.getLastD z) prv
  unfold Ring
  rw [append_assoc, hq', ← cons_append, hp', append_assoc, singleton_append,
    links_append]
  exact ⟨hfront, update_self .., update_self .., hback⟩

/-- An element is put in between two neighbours. -/
theorem Ring.insert (h : Ring nxt prv z (p ++ q)) :
    Ring (update (update nxt b (q.headD z)) (p.getLastD z) b)
      (update (update prv b (p.getLastD z)) (q.headD z) b) z (p ++ b :: q) := by
  have hne : ∀ x ∈ z :: (p ++ q), x ≠ b := by grind
  have hlast : p.getLastD z ≠ b :=
    hne _ (cons_subset_cons z (subset_append_left p q) (getLastD_mem z p))
  have hhead : q.headD z ≠ b :=
    hne _ (cons_subset_cons z (subset_append_right p q) (headD_mem z q))
  obtain ⟨p', q', hp', hq', hfront, hback⟩ :=
    Ring.outside (m := []) (by simpa using h) (nodup_without hnd)
      (fun x hx hxl => (update_of_ne hxl b _).trans
        (update_of_ne (hne x hx) (q.headD z) nxt))
      fun x hx hxl => (update_of_ne hxl b _).trans
        (update_of_ne (hne x hx) (p.getLastD z) prv)
  unfold Ring
  rw [append_assoc, cons_append, hq', ← cons_append, hp', append_assoc,
    singleton_append, links_append]
  refine ⟨hfront, update_self .., ?_, ?_, update_self .., hback⟩
  · rw [update_of_ne hhead.symm, update_self]
  · rw [update_of_ne hlast.symm, update_self]

end Edits

end System1.Lib

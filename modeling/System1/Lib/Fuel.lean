/-
Programs with fuel.

A loop that nothing bounds is modelled with fuel and spins when that runs out. A family of
programs, one for each amount of fuel, then stands for one program of the source. It is
`Steady` if more fuel never changes a run that has ended (`Extends`, between two amounts),
and it `Halts` if with some fuel the run ends. All are kept by sequencing: the second half
starts where the first has ended, and the larger of the two amounts is enough for both
(`halts_bind`). So whether a program halts can be read off its loops, one at a time.
-/
import System1.Lib.Prog

set_option autoImplicit false

namespace System1.Lib.Fuel

variable {Req : Type} {Resp : Req → Type} {ε α β σ : Type} {H : σ → (r : Req) → Resp r × σ}

/-- With some fuel the run ends. -/
def Halts (H : σ → (r : Req) → Resp r × σ) (p : Nat → Prog Resp ε α) (s : σ) : Prop :=
  ∃ n, ((p n).run H s).1 ≠ .spin

/-- Where the first program ends, the second ends alike. -/
def Extends (H : σ → (r : Req) → Resp r × σ) (p q : Prog Resp ε α) (s : σ) : Prop :=
  (p.run H s).1 ≠ .spin → q.run H s = p.run H s

/-- A run that has ended is the same with more fuel. -/
def Steady (H : σ → (r : Req) → Resp r × σ) (p : Nat → Prog Resp ε α) (s : σ) : Prop :=
  ∀ n m, n ≤ m → Extends H (p n) (p m) s

section

variable {p : Nat → Prog Resp ε α} {f : α → Nat → Prog Resp ε β} {s : σ}

theorem steady_const (q : Prog Resp ε α) : Steady H (fun _ => q) s := fun _ _ _ _ => rfl

theorem halts_fail (e : ε) : Halts H (fun _ => (.fail e : Prog Resp ε α)) s := ⟨0, nofun⟩

section

variable {q : Nat → Prog Resp ε α} {c : Prop} [Decidable c]

theorem steady_ite (hp : Steady H p s) (hq : Steady H q s) :
    Steady H (fun n => if c then p n else q n) s := by
  by_cases h : c
  · simpa only [if_pos h]
  · simpa only [if_neg h]

theorem halts_ite :
    Halts H (fun n => if c then p n else q n) s ↔ if c then Halts H p s else Halts H q s := by
  by_cases h : c
  · simp only [if_pos h]
  · simp only [if_neg h]

end

/-- What ends with any fuel can follow. -/
theorem halts_then {k : α → Prog Resp ε β} (hk : ∀ a s', ((k a).run H s').1 ≠ .spin) :
    Halts H (fun n => p n >>= k) s ↔ Halts H p s := by
  apply exists_congr
  grind [Prog.run_bind]

/-- Whatever fuel a run has ended with, it ends the same way. -/
theorem Steady.unique (hp : Steady H p s) {n m : Nat} (hn : ((p n).run H s).1 ≠ .spin)
    (hm : ((p m).run H s).1 ≠ .spin) : (p m).run H s = (p n).run H s := by
  obtain h | h := Nat.le_total n m
  · exact hp n m h hn
  · exact (hp m n h hm).symm

theorem run_bind_cases {q : Prog Resp ε α} {g : α → Prog Resp ε β}
    (h : ((q >>= g).run H s).1 ≠ .spin) :
    (∃ a s', q.run H s = (.done a, s') ∧ (q >>= g).run H s = (g a).run H s') ∨
    ∃ e s', q.run H s = (.fail e, s') ∧ (q >>= g).run H s = (.fail e, s') := by
  grind [Prog.run_bind]

theorem Extends.refl (q : Prog Resp ε α) (s : σ) : Extends H q q s := fun _ => rfl

/-- Two parts that both extend, one after the other. -/
theorem Extends.bind {p q : Prog Resp ε α} {f g : α → Prog Resp ε β} (hp : Extends H p q s)
    (hf : ∀ a s', p.run H s = (.done a, s') → Extends H (f a) (g a) s') :
    Extends H (p >>= f) (q >>= g) s := by
  intro hends
  obtain ⟨a, s', hrun, heq⟩ | ⟨e, s', hrun, heq⟩ := run_bind_cases hends
  · have hq := hp (by simp [hrun])
    rw [heq] at hends ⊢
    rw [Prog.run_bind_done H (hq.trans hrun)]
    exact hf a s' hrun hends
  · have hq := hp (by simp [hrun])
    rw [heq, Prog.run_bind_fail H (hq.trans hrun)]

section

variable (hp : Steady H p s) (hf : ∀ n a s', (p n).run H s = (.done a, s') → Steady H (f a) s')

include hp hf

theorem Steady.bind :
    Steady H (fun n => p n >>= fun a => f a n) s :=
  fun n m hnm => (hp n m hnm).bind fun a s' hrun => hf n a s' hrun n m hnm

/-- A sequence halts if both parts do. -/
theorem halts_bind :
    Halts H (fun n => p n >>= fun a => f a n) s ↔
      Halts H p s ∧ ∀ n a s', (p n).run H s = (.done a, s') → Halts H (f a) s' := by
  constructor
  · rintro ⟨n, hn⟩
    obtain ⟨a, s', hrun, heq⟩ | ⟨e, s', hrun, -⟩ := run_bind_cases hn
    · have hends : ((p n).run H s).1 ≠ .spin := by simp [hrun]
      refine ⟨⟨n, hends⟩, fun m b s'' hm => ⟨n, ?_⟩⟩
      have hsame := hp.unique hends (m := m) (by simp [hm])
      grind
    · have hends : ((p n).run H s).1 ≠ .spin := by simp [hrun]
      refine ⟨⟨n, hends⟩, fun m b s'' hm => ?_⟩
      have hsame := hp.unique hends (m := m) (by simp [hm])
      rw [hrun, hm] at hsame
      cases hsame
  · rintro ⟨⟨n, hn⟩, hrest⟩
    generalize hrun : (p n).run H s = r at hn
    obtain ⟨o, s'⟩ := r
    cases o with
    | done a =>
      obtain ⟨m, hm⟩ := hrest n a s' hrun
      -- enough for both
      have hp' := hp n (max n m) (Nat.le_max_left n m) (by rw [hrun]; exact hn)
      have hf' := hf n a s' hrun m (max n m) (Nat.le_max_right n m) hm
      refine ⟨max n m, ?_⟩
      grind [Prog.run_bind_done]
    | fail e =>
      refine ⟨n, ?_⟩
      rw [Prog.run_bind_fail H hrun]
      exact nofun
    | spin => exact absurd rfl hn

end

end

end System1.Lib.Fuel

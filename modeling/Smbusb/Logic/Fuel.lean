import Smbusb.Logic.Program

/-!
# Fuel

A loop takes its fuel as an argument, and a program whose loop runs out of it hangs.  More fuel
changes nothing about a program that does not hang: `Below m m'` says that `m'` does what `m`
does wherever `m` does not hang, and its rules follow the constructs of `Prog`.

A program without loops ends whatever the state is.  `Stops J m` says so, with `J` for whether
it may end in a jump; its rules follow the constructs, too.

A loop that never ends hangs whatever its fuel is: `hangs_whileLoop` is the rule for it, with
an invariant that every turn keeps.
-/

namespace Logic

namespace Prog

variable {L S A B : Type}

/-! ## More fuel -/

/-- Wherever `m` does not hang, `m'` does the same. -/
def Below (m m' : Prog L S A) : Prop := ∀ s, (∃ s', m s = .error .hang s') ∨ m' s = m s

theorem below_refl (m : Prog L S A) : Below m m := fun _ => .inr rfl

/-- A run that ends is a run of the program above. -/
theorem Below.run {m m' : Prog L S A} (h : Below m m') {s s' : S} {a : A} (hrun : m s = .ok a s') :
    m' s = .ok a s' := by
  rcases h s with ⟨t, hang⟩ | hsame
  · rw [hrun] at hang
    cases hang
  · rw [hsame, hrun]

theorem below_bind {m m' : Prog L S A} {k k' : A → Prog L S B} (hm : Below m m')
    (hk : ∀ a, Below (k a) (k' a)) : Below (m >>= k) (m' >>= k') := by
  intro s
  simp only [bind, EStateM.bind]
  rcases hm s with ⟨s', hang⟩ | hsame
  · exact .inl ⟨s', by rw [hang]⟩
  · rw [hsame]
    cases m s with
    | ok a s' => exact hk a s'
    | error e s' => exact .inr rfl

theorem below_ite {c : Prop} [Decidable c] {m m' n n' : Prog L S A} (h : Below m m')
    (h' : Below n n') : Below (if c then m else n) (if c then m' else n') := by
  split
  · exact h
  · exact h'

theorem below_labels {m m' : Prog L S A} {code code' : L → Prog L S A} (hm : Below m m')
    (hcode : ∀ l, Below (code l) (code' l)) : Below (labels m code) (labels m' code') := by
  intro s
  simp only [labels]
  rcases hm s with ⟨s', hang⟩ | hsame
  · exact .inl ⟨s', by rw [hang]⟩
  · rw [hsame]
    cases m s with
    | ok a s' => exact .inr rfl
    | error e s' =>
        cases e with
        | jump l => exact hcode l s'
        | hang => exact .inr rfl

theorem below_whileLoop {cond : A → S → Bool} {body : A → Prog L S A} {fuel fuel' : Nat}
    (hfuel : fuel ≤ fuel') (x : A) :
    Below (whileLoop cond body fuel x) (whileLoop cond body fuel' x) := by
  induction fuel generalizing fuel' x with
  | zero => exact fun s => .inl ⟨s, rfl⟩
  | succ fuel ih =>
      obtain ⟨fuel', rfl⟩ : ∃ f, fuel' = f + 1 := ⟨fuel' - 1, by omega⟩
      rw [whileLoop, whileLoop]
      refine below_bind (below_refl _) fun s => below_ite ?_ (below_refl _)
      exact below_bind (below_refl _) fun y => ih (Nat.le_of_succ_le_succ hfuel) y

/-! ## No fuel is needed -/

/-- The program ends from every state, and jumps only if `J`. -/
def Stops (J : Prop) (m : Prog L S A) : Prop := ∀ s, wp m (fun _ _ => True) (fun _ _ => J) s

variable {J : Prop}

theorem Stops.run {m : Prog L S A} (h : Stops False m) (s : S) : ∃ a s', m s = .ok a s' := by
  obtain ⟨a, s', hrun, -⟩ := exists_run_of_wp (h s)
  exact ⟨a, s', hrun⟩

theorem stops_pure (a : A) : Stops J (pure a : Prog L S A) := fun _ => trivial

theorem stops_get : Stops J (get : Prog L S S) := fun _ => trivial

theorem stops_modify (f : S → S) : Stops J (modify f : Prog L S PUnit) := fun _ => trivial

theorem stops_lift (f : S → A × S) : Stops J (lift f : Prog L S A) := fun _ => trivial

theorem stops_goto (l : L) : Stops True (goto l : Prog L S A) := fun _ => trivial

theorem stops_bind {m : Prog L S A} {k : A → Prog L S B} (hm : Stops J m)
    (hk : ∀ a, Stops J (k a)) : Stops J (m >>= k) :=
  fun s => (wp_bind m k).mpr (wp_mono (hm s) (fun a t _ => hk a t) fun _ _ h => h)

theorem stops_orGoto {m : Prog L S Bool} (hm : Stops True m) (l : L) : Stops True (orGoto m l) :=
  stops_bind hm fun b => by
    cases b with
    | true => exact stops_pure ()
    | false => exact stops_goto l

theorem stops_ite {c : Prop} [Decidable c] {m n : Prog L S A} (hm : Stops J m) (hn : Stops J n) :
    Stops J (if c then m else n) := by
  split
  · exact hm
  · exact hn

/-- The code at the labels ends what the body left by a jump. -/
theorem stops_labels {m : Prog L S A} {code : L → Prog L S A} (hm : Stops True m)
    (hcode : ∀ l, Stops J (code l)) : Stops J (labels m code) :=
  fun s => (wp_labels m code).mpr (wp_mono (hm s) (fun _ _ h => h) fun l t _ => hcode l t)

/-! ## No fuel is enough -/

/-- The program runs out of fuel. -/
def Hangs (m : Prog L S A) (s : S) : Prop := ∃ s', m s = .error .hang s'

theorem Hangs.not_ok {m : Prog L S A} {s s' : S} {a : A} (h : Hangs m s) : m s ≠ .ok a s' := by
  obtain ⟨t, hang⟩ := h
  rw [hang]
  intro hok
  cases hok

theorem hangs_bind {m : Prog L S A} {k : A → Prog L S B} {s : S} (h : Hangs m s) :
    Hangs (m >>= k) s := by
  obtain ⟨t, hang⟩ := h
  exact ⟨t, by simp only [bind, EStateM.bind, hang]⟩

theorem hangs_of_run {m : Prog L S A} {k : A → Prog L S B} {s s' : S} {a : A}
    (hrun : m s = .ok a s') (h : Hangs (k a) s') : Hangs (m >>= k) s := by
  obtain ⟨t, hang⟩ := h
  exact ⟨t, by simp only [bind, EStateM.bind, hrun, hang]⟩

theorem hangs_labels {m : Prog L S A} {code : L → Prog L S A} {s : S} (h : Hangs m s) :
    Hangs (labels m code) s := by
  obtain ⟨t, hang⟩ := h
  exact ⟨t, by simp only [labels, hang]⟩

/-- The rule of loops that never end: every turn goes on and keeps the invariant. -/
theorem hangs_whileLoop {cond : A → S → Bool} {body : A → Prog L S A} (I : A → S → Prop)
    (hstep : ∀ x s, I x s → cond x s = true ∧ ∃ y s', body x s = .ok y s' ∧ I y s')
    (fuel : Nat) {x : A} {s : S} (h0 : I x s) : Hangs (whileLoop cond body fuel x) s := by
  induction fuel generalizing x s with
  | zero => exact ⟨s, rfl⟩
  | succ fuel ih =>
      obtain ⟨hcond, y, s', hrun, hI⟩ := hstep x s h0
      have hloop : whileLoop cond body (fuel + 1) x = (do
          if cond x (← get) then whileLoop cond body fuel (← body x) else pure x) := rfl
      rw [hloop]
      have hget : (get : Prog L S S) s = .ok s s := rfl
      refine hangs_of_run hget ?_
      rw [if_pos hcond]
      exact hangs_of_run hrun (ih hI)

end Prog

end Logic

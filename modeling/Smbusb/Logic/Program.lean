import Mathlib

/-!
# Programs with labels and loops

A *program* runs on a state and either ends with a value, or leaves its straight
line: by a jump to a label, or because a loop did not see its end.  Nothing here
depends on what the states and the labels are.

*Running.*  `Prog L S A` is the state and exception monad of the core library.
A jump keeps the state it was made in.  `Prog.labels` runs the code at the label
a body jumps to.  `Prog.whileLoop` takes its fuel as an argument, so a loop that
never ends is a loop that hangs at every fuel.

*Reasoning.*  `Prog.wp m Q E s` says that `m`, run from `s`, ends with `Q`, or
jumps with `E`, and never hangs.  The equations of `wp` are tagged for `simp`, so
a straight line of a program is executed by rewriting.  A loop is left to the
rule `Prog.wp_whileLoop`, which counts the iterations: its invariant is indexed
by the number of iterations done.
-/

namespace Logic

/-- How a program leaves its straight line. -/
inductive Exit (L : Type) where
  /-- A jump to a label. -/
  | jump (l : L)
  /-- A loop that ran out of fuel. -/
  | hang
deriving DecidableEq, Repr

/-- A program over the states `S` that may jump to the labels `L`. -/
abbrev Prog (L S A : Type) := EStateM (Exit L) S A

namespace Prog

variable {L S A B : Type}

/-! ## Running -/

/-- Jump to a label. -/
def goto (l : L) : Prog L S A := throw (.jump l)

/-- Jump to a label unless the program `m` says true. -/
def orGoto (m : Prog L S Bool) (l : L) : Prog L S Unit := do
  if ← m then pure () else goto l

/-- Run `body`, and the code at the label it jumps to. -/
def labels (body : Prog L S A) (code : L → Prog L S A) : Prog L S A := fun s =>
  match body s with
  | .error (.jump l) s' => code l s'
  | r => r

/-- Run a total function on a state. -/
def lift (f : S → A × S) : Prog L S A := fun s => .ok (f s).1 (f s).2

/-- `while (cond x) x = body x`, for at most `fuel` tests of the condition. -/
def whileLoop (cond : A → S → Bool) (body : A → Prog L S A) : Nat → A → Prog L S A
  | 0, _ => throw .hang
  | fuel + 1, x => do
      if cond x (← get) then whileLoop cond body fuel (← body x) else pure x

/-- `for (; i < i₀ + n; i++) body i`, from `i = i₀` on. -/
def forUpTo (body : Nat → Prog L S Unit) : Nat → Nat → Prog L S Unit
  | 0, _ => pure ()
  | n + 1, i => do
      body i
      forUpTo body n (i + 1)

/-! ## Weakest preconditions -/

/-- Run from `s`, the program ends with `Q` or jumps with `E`. -/
def wp (m : Prog L S A) (Q : A → S → Prop) (E : L → S → Prop) (s : S) : Prop :=
  match m s with
  | .ok a s' => Q a s'
  | .error (.jump l) s' => E l s'
  | .error .hang _ => False

variable {Q Q' : A → S → Prop} {E E' : L → S → Prop} {s : S}

@[simp] theorem wp_pure (a : A) : wp (pure a : Prog L S A) Q E s ↔ Q a s := Iff.rfl

@[simp] theorem wp_bind (m : Prog L S B) (f : B → Prog L S A) :
    wp (m >>= f) Q E s ↔ wp m (fun b s' => wp (f b) Q E s') E s := by
  simp only [wp, bind, EStateM.bind]
  cases m s with
  | ok b s' => rfl
  | error e s' => cases e <;> rfl

@[simp] theorem wp_get {Q : S → S → Prop} : wp (get : Prog L S S) Q E s ↔ Q s s := Iff.rfl

@[simp] theorem wp_set {Q : PUnit → S → Prop} (t : S) :
    wp (set t : Prog L S PUnit) Q E s ↔ Q ⟨⟩ t := Iff.rfl

@[simp] theorem wp_modify {Q : PUnit → S → Prop} (f : S → S) :
    wp (modify f : Prog L S PUnit) Q E s ↔ Q ⟨⟩ (f s) := Iff.rfl

@[simp] theorem wp_goto (l : L) : wp (goto l : Prog L S A) Q E s ↔ E l s := Iff.rfl

@[simp] theorem wp_lift (f : S → A × S) :
    wp (lift f : Prog L S A) Q E s ↔ Q (f s).1 (f s).2 := Iff.rfl

@[simp] theorem wp_orGoto {Q : Unit → S → Prop} (m : Prog L S Bool) (l : L) :
    wp (orGoto m l) Q E s ↔ wp m (fun b s' => if b then Q () s' else E l s') E s := by
  simp only [orGoto, wp_bind]
  unfold wp
  cases m s with
  | ok b s' => cases b <;> rfl
  | error e s' => cases e <;> rfl

@[simp] theorem wp_labels (m : Prog L S A) (code : L → Prog L S A) :
    wp (labels m code) Q E s ↔ wp m Q (fun l s' => wp (code l) Q E s') s := by
  simp only [wp, labels]
  cases m s with
  | ok b s' => rfl
  | error e s' => cases e <;> rfl

theorem wp_ite (c : Prop) [Decidable c] (m m' : Prog L S A) :
    wp (if c then m else m') Q E s ↔ if c then wp m Q E s else wp m' Q E s := by
  split <;> rfl

/-- The postconditions of a program may be weakened. -/
theorem wp_mono {m : Prog L S A} (h : wp m Q E s) (hQ : ∀ a s', Q a s' → Q' a s')
    (hE : ∀ l s', E l s' → E' l s') : wp m Q' E' s := by
  unfold wp at h ⊢
  cases hm : m s with
  | ok a s' => rw [hm] at h; exact hQ a s' h
  | error e s' =>
      rw [hm] at h
      cases e with
      | jump l => exact hE l s' h
      | hang => exact h

/-- A known run decides the postcondition. -/
theorem wp_of_run {m : Prog L S A} {a : A} {s' : S} (h : m s = .ok a s') :
    wp m Q E s ↔ Q a s' := by
  simp only [wp, h]

/-- A program that does not jump runs to a state with its postcondition. -/
theorem exists_run_of_wp {m : Prog L S A} (h : wp m Q (fun _ _ => False) s) :
    ∃ a s', m s = .ok a s' ∧ Q a s' := by
  unfold wp at h
  cases hm : m s with
  | ok a s' => rw [hm] at h; exact ⟨a, s', rfl, h⟩
  | error e s' =>
      rw [hm] at h
      cases e <;> exact h.elim

/-! ## Loops -/

/-- One test of the condition. -/
theorem wp_whileLoop_succ {cond : A → S → Bool} {body : A → Prog L S A} {fuel : Nat} {x : A} :
    wp (whileLoop cond body (fuel + 1) x) Q E s ↔
      if cond x s then wp (body x) (fun y s' => wp (whileLoop cond body fuel y) Q E s') E s
      else Q x s := by
  rw [whileLoop, wp_bind, wp_get]
  cases cond x s with
  | true => simp only [if_true, wp_bind]
  | false => simp only [Bool.false_eq_true, if_false, wp_pure]

/-- The rule of counted loops, for the first `n` iterations.  `I k` holds after `k`
iterations; the rest of the loop has to be dealt with from `I n`. -/
theorem wp_whileLoop_add {cond : A → S → Bool} {body : A → Prog L S A} {fuel : Nat}
    (I : Nat → A → S → Prop) (n : Nat)
    (hstep : ∀ k < n, ∀ x s, I k x s → cond x s = true ∧ wp (body x) (I (k + 1)) E s)
    (hrest : ∀ x s, I n x s → wp (whileLoop cond body fuel x) Q E s)
    {x : A} (h0 : I 0 x s) : wp (whileLoop cond body (fuel + n) x) Q E s := by
  induction n generalizing I x s with
  | zero => exact hrest x s h0
  | succ n ih =>
      obtain ⟨hc, hb⟩ := hstep 0 (by omega) x s h0
      rw [← Nat.add_assoc, wp_whileLoop_succ, hc]
      refine wp_mono hb (fun y s' hy => ?_) (fun _ _ h => h)
      exact ih (fun k => I (k + 1)) (fun k hk => hstep (k + 1) (by omega)) hrest hy

/-- The rule of counted loops.  The loop goes on for exactly `n` iterations, unless its
body jumps, and any fuel above `n` is enough. -/
theorem wp_whileLoop {cond : A → S → Bool} {body : A → Prog L S A}
    (I : Nat → A → S → Prop) (n : Nat)
    (hstep : ∀ k < n, ∀ x s, I k x s → cond x s = true ∧ wp (body x) (I (k + 1)) E s)
    (hend : ∀ x s, I n x s → cond x s = false ∧ Q x s)
    {fuel : Nat} (hfuel : n < fuel) {x : A} (h0 : I 0 x s) :
    wp (whileLoop cond body fuel x) Q E s := by
  obtain ⟨fuel, rfl⟩ : ∃ f, fuel = f + 1 + n := ⟨fuel - 1 - n, by omega⟩
  refine wp_whileLoop_add I n hstep (fun x s hI => ?_) h0
  obtain ⟨hc, hQ⟩ := hend x s hI
  rw [wp_whileLoop_succ, hc]
  exact hQ

/-- The rule of loops with a variant, for a loop whose iterations cannot be counted in
advance. -/
theorem wp_whileLoop_variant {cond : A → S → Bool} {body : A → Prog L S A}
    (I : A → S → Prop) (variant : A → S → Nat)
    (hstep : ∀ x s, I x s → cond x s = true →
      wp (body x) (fun y s' => I y s' ∧ variant y s' < variant x s) E s)
    (hend : ∀ x s, I x s → cond x s = false → Q x s)
    {fuel : Nat} {x : A} (hfuel : variant x s < fuel) (h0 : I x s) :
    wp (whileLoop cond body fuel x) Q E s := by
  induction fuel generalizing x s with
  | zero => exact absurd hfuel (Nat.not_lt_zero _)
  | succ fuel ih =>
      rw [wp_whileLoop_succ]
      cases hc : cond x s with
      | false => exact hend x s h0 hc
      | true =>
          refine wp_mono (hstep x s h0 hc) (fun y s' hy => ?_) (fun _ _ h => h)
          exact ih (Nat.lt_of_lt_of_le hy.2 (Nat.le_of_lt_succ hfuel)) hy.1

/-- The rule of `for` loops: `I k` holds before the turn `k`. -/
theorem wp_forUpTo {body : Nat → Prog L S Unit} {Q : Unit → S → Prop} (I : Nat → S → Prop)
    {n i : Nat}
    (hstep : ∀ k, i ≤ k → k < i + n → ∀ s, I k s → wp (body k) (fun _ => I (k + 1)) E s)
    (hend : ∀ s, I (i + n) s → Q () s) (h0 : I i s) : wp (forUpTo body n i) Q E s := by
  induction n generalizing i s with
  | zero => exact hend s h0
  | succ n ih =>
      rw [forUpTo, wp_bind]
      refine wp_mono (hstep i (Nat.le_refl i) (by omega) s h0) (fun _ s' h' => ?_) fun _ _ h => h
      refine ih (fun k hle hlt => hstep k (by omega) (by omega)) (fun s'' h'' => hend s'' ?_) h'
      rwa [Nat.add_right_comm] at h''

end Prog

end Logic

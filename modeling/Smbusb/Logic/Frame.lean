import Smbusb.Logic.Program

/-!
# What a program leaves alone

A program is *within* a preorder on the states when, however it ends, with a value, by a
jump, or in a loop that ran out of fuel, the preorder relates the state it started in to the
state it ends in.  So a loop is within what its body is within, without an invariant and for
every fuel.

It *keeps* an observation of the state when the observation is the same however it ends:
the preorder is then that of equal observations.

The rules follow the constructs of `Prog`.
-/

namespace Logic

namespace Prog

variable {L S A B V : Type}

/-- The state a program ends in. -/
def endState (m : Prog L S A) (s : S) : S :=
  match m s with
  | .ok _ s' => s'
  | .error _ s' => s'

/-- However `m` ends, `R` relates the states before and after it. -/
def Within (R : S → S → Prop) (m : Prog L S A) : Prop := ∀ s, R s (endState m s)

/-- However `m` ends, the observation is what it was. -/
def Keeps (obs : S → V) (m : Prog L S A) : Prop := ∀ s, obs (endState m s) = obs s

theorem endState_of_run {m : Prog L S A} {s s' : S} {a : A} (h : m s = .ok a s') :
    endState m s = s' := by
  simp only [endState, h]

/-- What holds however a program ends holds of the state it ends in. -/
theorem endState_of_wp {m : Prog L S A} {s : S} {P : S → Prop}
    (h : wp m (fun _ => P) (fun _ => P) s) : P (endState m s) := by
  unfold wp at h
  unfold endState
  cases hrun : m s with
  | ok a s' => rwa [hrun] at h
  | error e s' =>
      rw [hrun] at h
      cases e with
      | jump l => exact h
      | hang => exact h.elim

/-! ## Preorders -/

section

variable {R : S → S → Prop} [IsPreorder S R]

theorem within_pure (a : A) : Within R (pure a : Prog L S A) := fun s => refl_of R s

theorem within_get : Within R (get : Prog L S S) := fun s => refl_of R s

theorem within_goto (l : L) : Within R (goto l : Prog L S A) := fun s => refl_of R s

omit [IsPreorder S R] in
theorem within_lift {f : S → A × S} (h : ∀ s, R s (f s).2) : Within R (lift f : Prog L S A) := h

omit [IsPreorder S R] in
theorem within_modify {f : S → S} (h : ∀ s, R s (f s)) :
    Within R (modify f : Prog L S PUnit) := h

theorem within_bind {m : Prog L S A} {k : A → Prog L S B} (hm : Within R m)
    (hk : ∀ a, Within R (k a)) : Within R (m >>= k) := by
  intro s
  have hs := hm s
  simp only [endState] at hs
  simp only [endState, bind, EStateM.bind]
  cases hrun : m s with
  | ok a s' =>
      rw [hrun] at hs
      exact trans_of R hs (hk a s')
  | error e s' =>
      rw [hrun] at hs
      exact hs

theorem within_orGoto {m : Prog L S Bool} (hm : Within R m) (l : L) : Within R (orGoto m l) := by
  refine within_bind hm fun b => ?_
  cases b with
  | true => exact within_pure ()
  | false => exact within_goto l

omit [IsPreorder S R] in
theorem within_ite {c : Prop} [Decidable c] {m m' : Prog L S A} (h : c → Within R m)
    (h' : ¬ c → Within R m') : Within R (if c then m else m') := by
  split
  · next hc => exact h hc
  · next hc => exact h' hc

theorem within_labels {m : Prog L S A} {code : L → Prog L S A} (hm : Within R m)
    (hcode : ∀ l, Within R (code l)) : Within R (labels m code) := by
  intro s
  have hs := hm s
  simp only [endState] at hs
  cases hrun : m s with
  | ok a s' =>
      rw [hrun] at hs
      simpa only [endState, labels, hrun] using hs
  | error e s' =>
      rw [hrun] at hs
      cases e with
      | jump l =>
          have hend : endState (labels m code) s = endState (code l) s' := by
            simp only [endState, labels, hrun]
          rw [hend]
          exact trans_of R hs (hcode l s')
      | hang => simpa only [endState, labels, hrun] using hs

theorem within_whileLoop {cond : A → S → Bool} {body : A → Prog L S A}
    (hbody : ∀ x, Within R (body x)) (fuel : Nat) (x : A) :
    Within R (whileLoop cond body fuel x) := by
  induction fuel generalizing x with
  | zero => exact fun s => refl_of R s
  | succ fuel ih =>
      rw [whileLoop]
      refine within_bind within_get fun s => within_ite (fun _ => ?_) fun _ => within_pure x
      exact within_bind (hbody x) ih

end

/-! ## Observations -/

instance isPreorder_obs (obs : S → V) : IsPreorder S fun s s' => obs s' = obs s where
  refl _ := rfl
  trans _ _ _ h h' := h'.trans h

theorem keeps_of_within {obs : S → V} {m : Prog L S A}
    (h : Within (fun s s' => obs s' = obs s) m) : Keeps obs m := h

/-- A precondition may use what the program keeps. -/
theorem wp_of_keeps {obs : S → V} {m : Prog L S A} {Q Q' : A → S → Prop} {E E' : L → S → Prop}
    {s : S} (hkeep : Keeps obs m) (h : wp m Q E s)
    (hQ : ∀ a s', Q a s' → obs s' = obs s → Q' a s')
    (hE : ∀ l s', E l s' → obs s' = obs s → E' l s') : wp m Q' E' s := by
  have hs := hkeep s
  unfold wp at h ⊢
  unfold endState at hs
  cases hrun : m s with
  | ok a s' =>
      rw [hrun] at h hs
      exact hQ a s' h hs
  | error e s' =>
      rw [hrun] at h hs
      cases e with
      | jump l => exact hE l s' h hs
      | hang => exact h.elim

end Prog

end Logic

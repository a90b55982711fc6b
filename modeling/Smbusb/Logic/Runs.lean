import Mathlib

/-!
# Runs

A system whose steps are labelled runs by folding its step function over a list of
labels.  `EveryStep f P s run` says that `P` holds of every step of the run, read
at the state the step starts in.
-/

namespace Logic

variable {S L : Type}

/-- `P` holds of every step of the run from `s`, at the state before the step. -/
def EveryStep (f : S → L → S) (P : S → L → Prop) : S → List L → Prop
  | _, [] => True
  | s, l :: ls => P s l ∧ EveryStep f P (f s l) ls

@[simp] theorem everyStep_nil (f : S → L → S) (P : S → L → Prop) (s : S) :
    EveryStep f P s [] := trivial

@[simp] theorem everyStep_cons {f : S → L → S} {P : S → L → Prop} {s : S} {l : L} {ls : List L} :
    EveryStep f P s (l :: ls) ↔ P s l ∧ EveryStep f P (f s l) ls := Iff.rfl

theorem EveryStep.imp {f : S → L → S} {P Q : S → L → Prop} (h : ∀ {s l}, P s l → Q s l) {s : S}
    {run : List L} (hrun : EveryStep f P s run) : EveryStep f Q s run := by
  induction run generalizing s with
  | nil => trivial
  | cons l ls ih => exact ⟨h hrun.1, ih hrun.2⟩

theorem everyStep_append {f : S → L → S} {P : S → L → Prop} {s : S} {ls ls' : List L} :
    EveryStep f P s (ls ++ ls') ↔ EveryStep f P s ls ∧ EveryStep f P (ls.foldl f s) ls' := by
  induction ls generalizing s with
  | nil => exact ⟨fun h => ⟨trivial, h⟩, And.right⟩
  | cons l ls ih =>
      rw [List.cons_append, everyStep_cons, everyStep_cons, ih, and_assoc]
      rfl

/-- The run rule.  A step that meets the condition `C` from a state with the
invariant keeps the invariant and has `P`; so a run of such steps has `P` at every
step. -/
theorem everyStep_of_invariant {f : S → L → S} {C P : S → L → Prop} (Inv : S → Prop)
    (hstep : ∀ s l, Inv s → C s l → P s l ∧ Inv (f s l)) :
    ∀ {s : S} {run : List L}, Inv s → EveryStep f C s run → EveryStep f P s run
  | _, [], _, _ => trivial
  | s, l :: _, hs, h =>
      have hl := hstep s l hs h.1
      ⟨hl.1, everyStep_of_invariant Inv hstep hl.2 h.2⟩

/-- Two properties of a step that agree under an invariant, which one of them keeps, agree
over runs. -/
theorem everyStep_iff_of_invariant {f : S → L → S} {C P : S → L → Prop} (Inv : S → Prop)
    (hiff : ∀ s l, Inv s → (P s l ↔ C s l)) (hkeep : ∀ s l, Inv s → P s l → Inv (f s l)) :
    ∀ {s : S} {run : List L}, Inv s → (EveryStep f P s run ↔ EveryStep f C s run)
  | _, [], _ => Iff.rfl
  | s, l :: _, hs => by
      rw [everyStep_cons, everyStep_cons, ← hiff s l hs]
      exact and_congr_right fun hl =>
        everyStep_iff_of_invariant Inv hiff hkeep (hkeep s l hs hl)

end Logic

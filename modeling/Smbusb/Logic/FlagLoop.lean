import Smbusb.Logic.Objects

/-!
# Loops that poll a flag

An interrupt puts a message in a slot and sets a flag.  A loop tests the flag, handles the message
in the slot, and clears the flag.  Nothing keeps a message from coming while the flag is set.

*Steps.*  `FlagLoop.step` is one event: a message arrives, something goes on in the background, or
the loop takes its next step.  A run is any list of them, so it is any interleaving.

*What is handled.*  A message is handled once at most, and the messages that are handled are in
the order they came in (`handled_sublist`).  A message that comes when the flag is set (`overruns`)
costs one: the message that was in the slot, or the new one when the slot was read already.  So the
numbers add up (`handled_count`), and all messages are handled exactly when there is no overrun
and none is left (`handled_iff`).

*Waiting.*  A sender that gives the loop the time for each message (`Patient`) loses none
(`sent_run`).
-/

namespace Logic

/-- Where the loop is. -/
inductive LoopPhase where
  /-- Before the test of the flag. -/
  | test
  /-- Behind a test that found it set. -/
  | handle
  /-- Behind the handling, before the flag is cleared. -/
  | clear
deriving DecidableEq, Repr

/-- A loop, the flag and the slot it shares with the interrupt, and the state it works on. -/
structure FlagLoop (P S : Type) where
  flag : Bool
  slot : P
  phase : LoopPhase
  state : S

/-- What may happen next. -/
inductive LoopEvent (P B : Type) where
  | arrive (p : P)
  | background (b : B)
  | loop

namespace FlagLoop

section

variable {P B S : Type} (handle : P → S → S) (background : B → S → S)

/-- The loop before anything has come. -/
def start (slot : P) (state : S) : FlagLoop P S := ⟨false, slot, .test, state⟩

/-- One event. -/
def step (s : FlagLoop P S) : LoopEvent P B → FlagLoop P S
  | .arrive p => { s with flag := true, slot := p }
  | .background b => { s with state := background b s.state }
  | .loop =>
      match s.phase with
      | .test => if s.flag then { s with phase := .handle } else s
      | .handle => { s with phase := .clear, state := handle s.slot s.state }
      | .clear => { s with phase := .test, flag := false }

/-- What an event does to the state. -/
def effect (s : FlagLoop P S) : LoopEvent P B → List (B ⊕ P)
  | .arrive _ => []
  | .background b => [.inl b]
  | .loop => if s.phase = .handle then [.inr s.slot] else []

/-- What a run does to the state. -/
def effects (s : FlagLoop P S) (run : List (LoopEvent P B)) : List (B ⊕ P) :=
  history (step handle background) effect s run

/-- The messages that are handled. -/
def handled (s : FlagLoop P S) (run : List (LoopEvent P B)) : List P :=
  (effects handle background s run).filterMap Sum.getRight?

/-- The message of an event. -/
def message : LoopEvent P B → Option P
  | .arrive p => some p
  | _ => none

/-- The messages that arrive. -/
def arrived (run : List (LoopEvent P B)) : List P := run.filterMap message

/-- A message that comes when the flag is set. -/
def overrun (s : FlagLoop P S) (e : LoopEvent P B) : List P :=
  if s.flag then (message e).toList else []

/-- All such messages of a run. -/
def overruns (s : FlagLoop P S) (run : List (LoopEvent P B)) : List P :=
  history (step handle background) overrun s run

/-- The message that the loop is going to handle. -/
def waiting (s : FlagLoop P S) : List P :=
  match s.phase with
  | .test => if s.flag then [s.slot] else []
  | .handle => [s.slot]
  | .clear => []

/-- The flag is set until the loop clears it. -/
def Sound (s : FlagLoop P S) : Prop := s.phase ≠ .test → s.flag = true

variable {handle background}

theorem sound_start (slot : P) (state : S) : (start slot state).Sound := fun h => absurd rfl h

variable (handle background) in
theorem Sound.step {s : FlagLoop P S} (h : s.Sound) (e : LoopEvent P B) :
    (s.step handle background e).Sound := by
  cases e with
  | arrive p => exact fun _ => rfl
  | background b => exact h
  | loop =>
      intro hphase
      rw [FlagLoop.step] at hphase ⊢
      cases hs : s.phase with
      | test =>
          simp only [hs] at hphase ⊢
          split at hphase
          · rename_i hflag
            simpa only [if_pos hflag] using hflag
          · exact absurd hs hphase
      | handle => exact h (by rw [hs]; exact LoopPhase.noConfusion)
      | clear =>
          rw [hs] at hphase
          exact absurd rfl hphase

variable (handle background) in
/-- The state behind a run. -/
theorem state_run (s : FlagLoop P S) (run : List (LoopEvent P B)) :
    (run.foldl (step handle background) s).state =
      (effects handle background s run).foldl (fun state e => Sum.elim background handle e state)
        s.state := by
  induction run generalizing s with
  | nil => rfl
  | cons e es ih =>
      rw [List.foldl_cons, ih, effects, effects, history, List.foldl_append]
      congr 1
      cases e with
      | arrive p => rfl
      | background b => rfl
      | loop =>
          rw [step, effect]
          cases s.phase with
          | test =>
              dsimp only
              split <;> rfl
          | handle => rfl
          | clear => rfl

/-- What is handled of a run with one more event at its beginning. -/
theorem handled_cons (s : FlagLoop P S) (e : LoopEvent P B) (es : List (LoopEvent P B)) :
    handled handle background s (e :: es) =
      (s.effect e).filterMap Sum.getRight? ++ handled handle background (s.step handle background e)
        es := by
  rw [handled, effects, history, List.filterMap_append]
  rfl

variable (handle background) in
/-- An event moves a message on, and an overrun costs one. -/
theorem moved_step {s : FlagLoop P S} (h : s.Sound) (e : LoopEvent P B) :
    ((s.effect e).filterMap Sum.getRight? ++ waiting (s.step handle background e)).Sublist
        (waiting s ++ (message e).toList) ∧
      ((s.effect e).filterMap Sum.getRight? ++ waiting (s.step handle background e)).length +
        (s.overrun e).length = (waiting s ++ (message e).toList).length := by
  obtain ⟨flag, slot, phase, state⟩ := s
  have hset : phase ≠ .test → flag = true := h
  cases e with
  | background b =>
      have hwaiting : waiting (step handle background ⟨flag, slot, phase, state⟩ (.background b)) =
          waiting ⟨flag, slot, phase, state⟩ := rfl
      cases flag <;> simp [effect, overrun, message, hwaiting]
  | arrive p =>
      cases phase with
      | test => cases flag <;> simp [effect, step, overrun, message, waiting]
      | handle =>
          cases hset LoopPhase.noConfusion
          simp [effect, step, overrun, message, waiting]
      | clear =>
          cases hset LoopPhase.noConfusion
          simp [effect, step, overrun, message, waiting]
  | loop =>
      cases phase with
      | test => cases flag <;> simp [effect, step, overrun, message, waiting]
      | handle => cases flag <;> simp [effect, step, overrun, message, waiting]
      | clear => cases flag <;> simp [effect, step, overrun, message, waiting]

/-! ## Runs -/

variable (handle background) in
/-- What is handled is a part of what arrives, in the same order, and nothing is handled twice. -/
theorem handled_sublist {s : FlagLoop P S} (h : s.Sound) (run : List (LoopEvent P B)) :
    (handled handle background s run ++ waiting (run.foldl (step handle background) s)).Sublist
      (waiting s ++ arrived run) := by
  induction run generalizing s with
  | nil => exact (List.append_nil (waiting s)).symm ▸ List.Sublist.refl _
  | cons e es ih =>
      have hrest := ih (h.step handle background e)
      have hmoved := (moved_step handle background h e).1
      have harrived : arrived (e :: es) = (message e).toList ++ arrived es := by
        rw [arrived, List.filterMap_cons]
        cases message e with
        | none => rfl
        | some p => rfl
      rw [handled_cons, List.foldl_cons, harrived, List.append_assoc,
        ← List.append_assoc (waiting s)]
      have hfirst := List.Sublist.append_left hrest ((s.effect e).filterMap Sum.getRight?)
      rw [← List.append_assoc _ (waiting _)] at hfirst
      exact hfirst.trans (hmoved.append_right _)

variable (handle background) in
/-- Every message is handled, is left, or has been lost to an overrun. -/
theorem handled_count {s : FlagLoop P S} (h : s.Sound) (run : List (LoopEvent P B)) :
    (handled handle background s run).length + (overruns handle background s run).length +
        (waiting (run.foldl (step handle background) s)).length =
      (waiting s).length + (arrived run).length := by
  induction run generalizing s with
  | nil => simp [handled, effects, overruns, history, arrived]
  | cons e es ih =>
      have hrest := ih (h.step handle background e)
      have hmoved := (moved_step handle background h e).2
      have harrived : (arrived (e :: es)).length =
          (message e).toList.length + (arrived es).length := by
        rw [arrived, List.filterMap_cons]
        cases message e with
        | none => exact (Nat.zero_add _).symm
        | some p => exact Nat.add_comm _ _
      rw [overruns] at hrest ⊢
      rw [handled_cons, List.foldl_cons, harrived, history, List.length_append, List.length_append]
      rw [List.length_append, List.length_append] at hmoved
      omega

variable (handle background) in
/-- All messages are handled exactly when none comes while the flag is set and none is left. -/
theorem handled_iff {s : FlagLoop P S} (h : s.Sound) (run : List (LoopEvent P B)) :
    handled handle background s run = waiting s ++ arrived run ↔
      overruns handle background s run = [] ∧
        waiting (run.foldl (step handle background) s) = [] := by
  have hcount := handled_count handle background h run
  have hsub := handled_sublist handle background h run
  constructor
  · intro hall
    rw [hall, List.length_append] at hcount
    exact ⟨List.length_eq_zero_iff.mp (by omega), List.length_eq_zero_iff.mp (by omega)⟩
  · rintro ⟨hno, hleft⟩
    rw [hleft, List.append_nil] at hsub
    rw [hno, hleft, List.length_nil] at hcount
    refine hsub.eq_of_length ?_
    rw [List.length_append]
    omega

variable (handle background) in
/-- There is no overrun when no message comes while the flag is set. -/
theorem overruns_eq_nil (s : FlagLoop P S) (run : List (LoopEvent P B)) :
    overruns handle background s run = [] ↔
      EveryStep (step handle background) (fun s e => ∀ p, e = .arrive p → s.flag = false) s
        run := by
  induction run generalizing s with
  | nil => exact iff_of_true rfl trivial
  | cons e es ih =>
      rw [overruns, history, List.append_eq_nil_iff, everyStep_cons]
      refine and_congr ?_ (ih _)
      rw [overrun]
      cases e with
      | arrive p =>
          cases hflag : s.flag with
          | false => simp
          | true => simp [message]
      | background b => simp [message]
      | loop => simp [message]

/-! ## A sender that waits -/

/-- The steps of the loop until it has nothing to do. -/
def remaining (s : FlagLoop P S) : Nat :=
  match s.phase with
  | .test => if s.flag then 3 else 0
  | .handle => 2
  | .clear => 1

theorem remaining_eq_zero {s : FlagLoop P S} :
    remaining s = 0 ↔ s.phase = .test ∧ s.flag = false := by
  obtain ⟨flag, slot, phase, state⟩ := s
  cases phase with
  | test => cases flag <;> simp [remaining]
  | handle => simp [remaining]
  | clear => simp [remaining]

/-- Whether an event is a step of the loop. -/
def isLoop : LoopEvent P B → Bool
  | .loop => true
  | _ => false

/-- The loop gets done when nothing arrives. -/
theorem remaining_run {s : FlagLoop P S} {es : List (LoopEvent P B)} (hquiet : arrived es = []) :
    remaining (es.foldl (step handle background) s) = remaining s - es.countP isLoop := by
  induction es generalizing s with
  | nil => rfl
  | cons e es ih =>
      obtain ⟨flag, slot, phase, state⟩ := s
      rw [arrived, List.filterMap_cons] at hquiet
      cases e with
      | arrive p => exact absurd hquiet (List.cons_ne_nil _ _)
      | background b =>
          rw [List.foldl_cons, ih hquiet]
          rfl
      | loop =>
          have hone : remaining (step handle background (B := B) ⟨flag, slot, phase, state⟩ .loop) =
              remaining ⟨flag, slot, phase, state⟩ - 1 := by
            cases phase with
            | test => cases flag <;> rfl
            | handle => rfl
            | clear => rfl
          rw [List.foldl_cons, ih hquiet, hone, List.countP_cons_of_pos rfl]
          omega

/-- A message, and what happens until the next one. -/
def sent (turns : List (P × List (LoopEvent P B))) : List (LoopEvent P B) :=
  turns.flatMap fun t => .arrive t.1 :: t.2

/-- The sender gives the loop the time for each message. -/
def Patient (turns : List (P × List (LoopEvent P B))) : Prop :=
  ∀ t ∈ turns, arrived t.2 = [] ∧ 3 ≤ t.2.countP isLoop

theorem arrived_append (es es' : List (LoopEvent P B)) :
    arrived (es ++ es') = arrived es ++ arrived es' := List.filterMap_append

theorem everyStep_of_quiet {es : List (LoopEvent P B)} (hquiet : arrived es = [])
    (s : FlagLoop P S) :
    EveryStep (step handle background) (fun s e => ∀ p, e = .arrive p → s.flag = false) s es := by
  induction es generalizing s with
  | nil => trivial
  | cons e es ih =>
      rw [arrived, List.filterMap_cons] at hquiet
      cases e with
      | arrive p => exact absurd hquiet (List.cons_ne_nil _ _)
      | background b => exact ⟨nofun, ih hquiet _⟩
      | loop => exact ⟨nofun, ih hquiet _⟩

variable (handle background) in
/-- Nothing is lost of what such a sender sends. -/
theorem sent_run {s : FlagLoop P S} {turns : List (P × List (LoopEvent P B))}
    (hidle : remaining s = 0) (hpatient : Patient turns) :
    overruns handle background s (sent turns) = [] ∧
      remaining ((sent turns).foldl (step handle background) s) = 0 ∧
      arrived (sent turns) = turns.map Prod.fst := by
  induction turns generalizing s with
  | nil => exact ⟨rfl, hidle, rfl⟩
  | cons t ts ih =>
      obtain ⟨p, es⟩ := t
      obtain ⟨hquiet, hloops⟩ := hpatient _ (List.mem_cons_self ..)
      obtain ⟨flag, slot, phase, state⟩ := s
      obtain ⟨rfl, rfl⟩ : phase = .test ∧ flag = false := remaining_eq_zero.mp hidle
      have hdone : remaining (es.foldl (step handle background)
          (step handle background ⟨false, slot, .test, state⟩ (.arrive p))) = 0 := by
        rw [remaining_run hquiet]
        exact Nat.sub_eq_zero_of_le hloops
      obtain ⟨hno, hend, harrived⟩ := ih hdone fun t ht => hpatient t (List.mem_cons_of_mem _ ht)
      have hrun : sent ((p, es) :: ts) = .arrive p :: (es ++ sent ts) := rfl
      rw [overruns_eq_nil] at hno ⊢
      rw [hrun, everyStep_cons, everyStep_append, List.foldl_cons, List.foldl_append]
      refine ⟨⟨fun _ _ => rfl, everyStep_of_quiet hquiet _, hno⟩, hend, ?_⟩
      rw [List.map_cons, ← harrived, arrived, List.filterMap_cons]
      change p :: arrived (es ++ sent ts) = _
      rw [arrived_append, hquiet, List.nil_append]

theorem waiting_of_remaining {s : FlagLoop P S} (h : remaining s = 0) : waiting s = [] := by
  obtain ⟨hphase, hflag⟩ := remaining_eq_zero.mp h
  simp only [waiting, hphase, hflag, Bool.false_eq_true, if_false]

end

end FlagLoop

end Logic

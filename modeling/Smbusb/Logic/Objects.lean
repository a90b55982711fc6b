import Smbusb.Logic.Runs

/-!
# Objects behind a channel that fails

An object has states, and an operation gives a result and changes the state.  A caller that
reaches the object over a channel gets the result, or an error.  An error does not say whether the
operation was carried out.

*Calls.*  `Called` is one call: a result means that the operation was carried out, once, and an
error that it was carried out once or not at all.  `Calls` is a list of calls, one behind the
other.

*Explanations.*  `Explains h es` says that the history `h` of operations and outcomes comes from
the operations `es`, with their results, in the order of the calls: each that returned is there,
and each that failed may be.  `calls_iff` says that calls are what such an explanation gives, so
that nothing is lost, nothing is done twice, and nothing changes its place.

*Systems.*  `history` collects the calls of a run of a larger system.  If every step of it is a
call of the object, seen through a function `view` of its states, so is the run (`calls_history`);
and if no step fails, the run is a run of the object (`history_of_returned`).
-/

namespace Logic

/-- The result of an operation and the state after it. -/
abbrev Object (Op Res A : Type) := Op → A → Res × A

section

variable {Op Res A : Type} (o : Object Op Res A)

/-! ## Calls -/

/-- What a call may come to. -/
inductive Called (op : Op) (a : A) : Option Res → A → Prop
  /-- The operation was carried out, and its result came back. -/
  | returned : Called op a (some (o op a).1) (o op a).2
  /-- The operation was carried out, and an error came back. -/
  | unseen : Called op a none (o op a).2
  /-- The operation was not carried out. -/
  | missed : Called op a none a

/-- Calls, one behind the other. -/
inductive Calls : A → List (Op × Option Res) → A → Prop
  | nil (a : A) : Calls a [] a
  | cons {op : Op} {r : Option Res} {a b c : A} {h : List (Op × Option Res)} :
      Called o op a r b → Calls b h c → Calls a ((op, r) :: h) c

/-- Operations that are carried out one behind the other give these results. -/
inductive Plays : A → List (Op × Res) → A → Prop
  | nil (a : A) : Plays a [] a
  | cons {op : Op} {a c : A} {es : List (Op × Res)} :
      Plays (o op a).2 es c → Plays a ((op, (o op a).1) :: es) c

/-- The history of calls of which none fails. -/
def replies : A → List Op → List (Op × Option Res)
  | _, [] => []
  | a, op :: ops => (op, some (o op a).1) :: replies (o op a).2 ops

/-- The state after some operations. -/
def afterAll (a : A) (ops : List Op) : A := ops.foldl (fun a op => (o op a).2) a

/-- The operations that were carried out behind a history. -/
inductive Explains : List (Op × Option Res) → List (Op × Res) → Prop
  | nil : Explains [] []
  | returned (op : Op) (r : Res) {h : List (Op × Option Res)} {es : List (Op × Res)} :
      Explains h es → Explains ((op, some r) :: h) ((op, r) :: es)
  | unseen (op : Op) (r : Res) {h : List (Op × Option Res)} {es : List (Op × Res)} :
      Explains h es → Explains ((op, none) :: h) ((op, r) :: es)
  | missed (op : Op) {h : List (Op × Option Res)} {es : List (Op × Res)} :
      Explains h es → Explains ((op, none) :: h) es

/-- The calls of a history that returned, with their results. -/
def answered (h : List (Op × Option Res)) : List (Op × Res) :=
  h.filterMap fun c => c.2.map fun r => (c.1, r)

variable {o} {a b c : A} {h h' : List (Op × Option Res)} {es : List (Op × Res)}

theorem replies_append (ops ops' : List Op) (a : A) :
    replies o a (ops ++ ops') = replies o a ops ++ replies o (afterAll o a ops) ops' := by
  induction ops generalizing a with
  | nil => rfl
  | cons op ops ih => exact congrArg (_ :: ·) (ih _)

theorem Called.calls {op : Op} {r : Option Res} (hcall : Called o op a r b) :
    Calls o a [(op, r)] b := .cons hcall (.nil b)

/-- What is known of a call when its result does not come back. -/
theorem Called.failed {op : Op} {r : Option Res} (hcall : Called o op a r b) :
    Called o op a none b := by
  cases hcall with
  | returned => exact .unseen
  | unseen => exact .unseen
  | missed => exact .missed

theorem Calls.append (hfirst : Calls o a h b) (hrest : Calls o b h' c) :
    Calls o a (h ++ h') c := by
  induction hfirst with
  | nil a => exact hrest
  | cons hcall _ ih => exact .cons hcall (ih hrest)

/-! ## Explanations -/

/-- What was carried out is some of what was called, in the same order. -/
theorem Explains.sublist (hex : Explains h es) : (es.map Prod.fst).Sublist (h.map Prod.fst) := by
  induction hex with
  | nil => exact .slnil
  | returned op r _ ih => exact ih.cons_cons op
  | unseen op r _ ih => exact ih.cons_cons op
  | missed op _ ih => exact ih.cons op

/-- What returned was carried out, in the same order and with the same results. -/
theorem Explains.answered_sublist (hex : Explains h es) : (answered h).Sublist es := by
  induction hex with
  | nil => exact .slnil
  | returned op r _ ih => exact ih.cons_cons (op, r)
  | unseen op r _ ih => exact ih.cons (op, r)
  | missed op _ ih => exact ih

/-- Calls are what an explanation gives. -/
theorem calls_iff : Calls o a h b ↔ ∃ es, Explains h es ∧ Plays o a es b := by
  constructor
  · intro hcalls
    induction hcalls with
    | nil a => exact ⟨[], .nil, .nil a⟩
    | cons hcall _ ih =>
        obtain ⟨es, hex, hplays⟩ := ih
        cases hcall with
        | returned => exact ⟨_, hex.returned _ _, .cons hplays⟩
        | unseen => exact ⟨_, hex.unseen _ _, .cons hplays⟩
        | missed => exact ⟨es, hex.missed _, hplays⟩
  · rintro ⟨es, hex, hplays⟩
    induction hex generalizing a with
    | nil =>
        cases hplays with
        | nil => exact .nil _
    | returned op r _ ih =>
        cases hplays with
        | cons hplays => exact .cons .returned (ih hplays)
    | unseen op r _ ih =>
        cases hplays with
        | cons hplays => exact .cons .unseen (ih hplays)
    | missed op _ ih => exact .cons .missed (ih hplays)

end

/-! ## Systems -/

section

variable {S L E : Type}

/-- What the steps of a run add up to. -/
def history (f : S → L → S) (entries : S → L → List E) : S → List L → List E
  | _, [] => []
  | s, l :: ls => entries s l ++ history f entries (f s l) ls

variable {Op Res A : Type} {o : Object Op Res A} {f : S → L → S} {C : S → L → Prop}
  (view : S → A) (Inv : S → Prop)

/-- The simulation rule.  A step from a state with the invariant is a list of calls of the object,
and keeps the invariant; so a run is a list of calls of the object. -/
theorem calls_history {entries : S → L → List (Op × Option Res)}
    (hstep : ∀ s l, Inv s → C s l → Calls o (view s) (entries s l) (view (f s l)) ∧ Inv (f s l)) :
    ∀ {s : S} {run : List L}, Inv s → EveryStep f C s run →
      Calls o (view s) (history f entries s run) (view (run.foldl f s)) ∧ Inv (run.foldl f s)
  | s, [], hs, _ => ⟨.nil (view s), hs⟩
  | s, l :: ls, hs, hrun => by
      obtain ⟨hcalls, hkept⟩ := hstep s l hs hrun.1
      obtain ⟨hrest, hend⟩ := calls_history hstep hkept hrun.2
      exact ⟨hcalls.append hrest, hend⟩

/-- The refinement rule.  If no step fails, a run gives the results of the object. -/
theorem history_of_returned {entries : S → L → List (Op × Option Res)} {ops : S → L → List Op}
    (hstep : ∀ s l, Inv s → C s l → entries s l = replies o (view s) (ops s l) ∧
      view (f s l) = afterAll o (view s) (ops s l) ∧ Inv (f s l)) :
    ∀ {s : S} {run : List L}, Inv s → EveryStep f C s run →
      history f entries s run = replies o (view s) (history f ops s run) ∧
        view (run.foldl f s) = afterAll o (view s) (history f ops s run)
  | s, [], _, _ => ⟨rfl, rfl⟩
  | s, l :: ls, hs, hrun => by
      obtain ⟨hentries, hview, hkept⟩ := hstep s l hs hrun.1
      obtain ⟨hrest, hend⟩ := history_of_returned hstep hkept hrun.2
      refine ⟨?_, ?_⟩
      · rw [history, hentries, hrest, hview, history, replies_append]
      · rw [List.foldl_cons, hend, hview, history, afterAll, afterAll, afterAll, List.foldl_append]

/-- A history that does not look at the states. -/
theorem history_const (f : S → L → S) (g : L → List E) (s : S) (run : List L) :
    history f (fun _ => g) s run = run.flatMap g := by
  induction run generalizing s with
  | nil => rfl
  | cons l ls ih => rw [history, ih, List.flatMap_cons]

/-- A history that looks at them through a machine of its own. -/
theorem history_view {V : Type} (see : S → V) {g : V → L → V} (entries : V → L → List E)
    (hstep : ∀ s l, C s l → see (f s l) = g (see s) l) :
    ∀ {s : S} {run : List L}, EveryStep f C s run →
      history f (fun s => entries (see s)) s run = history g entries (see s) run
  | _, [], _ => rfl
  | s, l :: ls, hrun => by
      rw [history, history, history_view see entries hstep hrun.2, hstep s l hrun.1]

end

end Logic

import Smbusb.Host.PecReport
import Smbusb.Logic.FlagLoop

/-!
# The main loop

How requests get from the bus to `handle_vendorcommand`: the loop of `main`, `sudav_isr` and
`timer0_isr`, in any order.

*The loop.*  `sudav_isr` sets `dosud` when a setup packet is in `SETUPDAT`.  `main` tests `dosud`,
calls `handle_setupdata`, and clears `dosud` when that is done.  So it is a `FlagLoop`, and the
packet that is handled is the one in `SETUPDAT` at that time.  A packet that comes while another
one is handled is gone with the flag.

*Requests.*  Whatever the order, the firmware is in the state behind a run of requests, as the
other modules have them, and these are some of the packets, in their order (`main_requests`).
`main_handles` says when they are all of them.  A host that waits for the loop loses no packet
(`main_patient`): then the runs of requests that it makes are the runs of the firmware.

What is taken from outside the repository: `handle_setupdata` of fx2lib is any function, and where
the state is concerned it is one that calls `handle_vendorcommand` for a vendor request
(`PassesVendor`).  The packets are those of vendor requests: a standard request is answered by
fx2lib, and does not get to `handle_vendorcommand`.
-/

namespace Smbusb

open Logic

/-! ## The loop -/

/-- The setup packet of a vendor request, as far as `handle_vendorcommand` uses it, and the data
stage behind it. -/
structure Packet where
  cmd : Byte
  setup : Setup
  data : List Byte

/-- The packet of a request. -/
def VendorRequest.packet (r : VendorRequest) : Packet := ⟨r.cmd, r.setup, r.data⟩

/-- The request with a packet, some ticks after the one before. -/
def Packet.after (p : Packet) (gap : Nat) : VendorRequest := ⟨gap, p.cmd, p.setup, p.data⟩

/-- `timer0_isr`. -/
def timer0Isr (_ : Unit) (s : Fx2) : Fx2 := s.tick 1

/-- The firmware at its start, with anything in `SETUPDAT`. -/
def mainStart (setupdat : Packet) : FlagLoop Packet Fx2 := .start setupdat Fx2.init

section

variable (handleSetupdata : Packet → Fx2 → Fx2)

/-- `main` from its loop on: the flag is `dosud`, and the slot is `SETUPDAT`. -/
def mainStep (s : FlagLoop Packet Fx2) (e : LoopEvent Packet Unit) : FlagLoop Packet Fx2 :=
  s.step handleSetupdata timer0Isr e

/-- The firmware after these events. -/
def mainRun (setupdat : Packet) (run : List (LoopEvent Packet Unit)) : FlagLoop Packet Fx2 :=
  run.foldl (mainStep handleSetupdata) (mainStart setupdat)

/-- The packets that it has handled. -/
def mainHandled (setupdat : Packet) (run : List (LoopEvent Packet Unit)) : List Packet :=
  (mainStart setupdat).handled handleSetupdata timer0Isr run

/-- `handle_setupdata` hands a vendor request to `handle_vendorcommand`. -/
def PassesVendor (T : Target) : Prop := ∀ p s, handleSetupdata p s = s.handle T (p.after 0)

end

section

variable {handleSetupdata : Packet → Fx2 → Fx2} {T : Target} (setupdat : Packet)
  (run : List (LoopEvent Packet Unit))

/-! ## Requests -/

theorem tick_tick (s : Fx2) (a b : Nat) : (s.tick a).tick b = s.tick (a + b) := by
  simp only [Fx2.tick, BitVec.ofNat_add, BitVec.add_assoc]

/-- The ticks before a packet are those before its request. -/
theorem PassesVendor.tick (h : PassesVendor handleSetupdata T) (p : Packet) (s : Fx2) (n : Nat) :
    handleSetupdata p (s.tick n) = s.handle T (p.after n) := by
  rw [h, Fx2.handle, Fx2.handle, Fx2.receive, Fx2.receive, tick_tick]
  rfl

/-- Packets that are handled, and ticks between them, are a run of requests. -/
theorem PassesVendor.effects (h : PassesVendor handleSetupdata T)
    (effects : List (Unit ⊕ Packet)) (rs : List VendorRequest) (n : Nat) :
    ∃ rs' n', effects.foldl (fun s e => Sum.elim timer0Isr handleSetupdata e s)
        ((afterRun T rs).tick n) = (afterRun T (rs ++ rs')).tick n' ∧
      rs'.map VendorRequest.packet = effects.filterMap Sum.getRight? := by
  induction effects generalizing rs n with
  | nil => exact ⟨[], n, by rw [List.append_nil]; rfl, rfl⟩
  | cons e es ih =>
      cases e with
      | inl b =>
          obtain ⟨rs', n', hrun, hpackets⟩ := ih rs (n + 1)
          refine ⟨rs', n', ?_, hpackets⟩
          rw [← hrun, ← tick_tick]
          rfl
      | inr p =>
          obtain ⟨rs', n', hrun, hpackets⟩ := ih (rs ++ [p.after n]) 0
          refine ⟨p.after n :: rs', n', ?_, congrArg (p :: ·) hpackets⟩
          rw [List.append_assoc, List.cons_append, List.nil_append, afterRun_concat,
            Fx2.tick_zero, ← h.tick] at hrun
          exact hrun

/-- The firmware is in the state behind the packets that it has handled. -/
theorem main_state (h : PassesVendor handleSetupdata T) :
    ∃ rs n, (mainRun handleSetupdata setupdat run).state = (afterRun T rs).tick n ∧
      rs.map VendorRequest.packet = mainHandled handleSetupdata setupdat run := by
  obtain ⟨rs, n, hrun, hpackets⟩ := h.effects
    ((mainStart setupdat).effects handleSetupdata timer0Isr run) [] 0
  have hstate := FlagLoop.state_run handleSetupdata timer0Isr (mainStart setupdat) run
  rw [Fx2.tick_zero] at hrun
  exact ⟨rs, n, hstate.trans hrun, hpackets⟩

/-- In every interleaving, the firmware is in the state behind a run of requests, some ticks ago.
They are packets that have come, in their order, and none is there twice. -/
theorem main_requests (h : PassesVendor handleSetupdata T) :
    ∃ rs n, (mainRun handleSetupdata setupdat run).state = (afterRun T rs).tick n ∧
      rs.map VendorRequest.packet = mainHandled handleSetupdata setupdat run ∧
      (mainHandled handleSetupdata setupdat run).Sublist (FlagLoop.arrived run) := by
  obtain ⟨rs, n, hrun, hpackets⟩ := main_state setupdat run h
  refine ⟨rs, n, hrun, hpackets, ?_⟩
  have hsub := FlagLoop.handled_sublist handleSetupdata timer0Isr
    (FlagLoop.sound_start setupdat Fx2.init) run
  exact (List.sublist_append_left ..).trans hsub

/-- A function that does nothing else with a packet. -/
def onlyVendor (T : Target) (p : Packet) (s : Fx2) : Fx2 := s.handle T (p.after 0)

theorem passesVendor_onlyVendor (T : Target) : PassesVendor (onlyVendor T) T := fun _ _ => rfl

/-- The second packet comes while the first one is handled, and the third one behind it. -/
theorem main_requests_three :
    let packet : Word → Packet := fun state => ⟨smbEnablePec, ⟨state, 0⟩, []⟩
    let run : List (LoopEvent Packet Unit) :=
      [.arrive (packet 1), .loop, .arrive (packet 0), .background (), .loop, .loop,
        .arrive (packet 1), .loop, .loop, .loop]
    ∃ rs n, (mainRun (onlyVendor (.answers [])) (packet 0) run).state =
        (afterRun (.answers []) rs).tick n ∧
      rs.map VendorRequest.packet = mainHandled (onlyVendor (.answers [])) (packet 0) run ∧
      (mainHandled (onlyVendor (.answers [])) (packet 0) run).Sublist (FlagLoop.arrived run) :=
  main_requests _ _ (passesVendor_onlyVendor _)

variable (handleSetupdata) in
/-- Of the packets that come, one is lost for each that comes while `dosud` is set, and one may
still be left.  So all are handled exactly if none comes then and none is left. -/
theorem main_handles :
    (mainHandled handleSetupdata setupdat run).length +
        ((mainStart setupdat).overruns handleSetupdata timer0Isr run).length +
        (mainRun handleSetupdata setupdat run).waiting.length = (FlagLoop.arrived run).length ∧
      (mainHandled handleSetupdata setupdat run = FlagLoop.arrived run ↔
        EveryStep (mainStep handleSetupdata) (fun s e => ∀ p, e = .arrive p → s.flag = false)
            (mainStart setupdat) run ∧
          (mainRun handleSetupdata setupdat run).waiting = []) := by
  have hsound := FlagLoop.sound_start setupdat Fx2.init
  have hcount := FlagLoop.handled_count handleSetupdata timer0Isr hsound run
  have hiff := FlagLoop.handled_iff handleSetupdata timer0Isr hsound run
  rw [FlagLoop.overruns_eq_nil] at hiff
  exact ⟨hcount.trans (Nat.zero_add _), hiff⟩

variable {run}

/-- A host that gives the loop the time for each packet has every packet handled, and the firmware
is in the state behind its requests. -/
theorem main_patient (h : PassesVendor handleSetupdata T)
    {turns : List (Packet × List (LoopEvent Packet Unit))} (hpatient : FlagLoop.Patient turns) :
    mainHandled handleSetupdata setupdat (FlagLoop.sent turns) = turns.map Prod.fst ∧
      ∃ rs n, (mainRun handleSetupdata setupdat (FlagLoop.sent turns)).state =
          (afterRun T rs).tick n ∧
        rs.map VendorRequest.packet = turns.map Prod.fst := by
  obtain ⟨hno, hend, harrived⟩ := FlagLoop.sent_run handleSetupdata timer0Isr
    (s := mainStart setupdat) rfl hpatient
  have hiff := FlagLoop.handled_iff handleSetupdata timer0Isr
    (FlagLoop.sound_start setupdat Fx2.init) (FlagLoop.sent turns)
  have hall := hiff.mpr ⟨hno, FlagLoop.waiting_of_remaining hend⟩
  rw [harrived] at hall
  obtain ⟨rs, n, hrun, hpackets⟩ := main_state setupdat (FlagLoop.sent turns) h
  exact ⟨hall, rs, n, hrun, hpackets.trans hall⟩

/-- Two packets, and time for each. -/
theorem main_patient_two :
    let packet : Packet := ⟨smbEnablePec, ⟨1, 0⟩, []⟩
    let turns : List (Packet × List (LoopEvent Packet Unit)) :=
      [(packet, [.loop, .background (), .loop, .loop]), (packet, [.loop, .loop, .loop, .loop])]
    mainHandled (onlyVendor (.answers [])) packet (FlagLoop.sent turns) = turns.map Prod.fst ∧
      ∃ rs n, (mainRun (onlyVendor (.answers [])) packet (FlagLoop.sent turns)).state =
          (afterRun (.answers []) rs).tick n ∧
        rs.map VendorRequest.packet = turns.map Prod.fst := by
  refine main_patient _ (passesVendor_onlyVendor _) ?_
  intro t ht
  simp only [List.mem_cons, List.not_mem_nil, or_false] at ht
  rcases ht with rfl | rfl
  · exact ⟨rfl, by decide⟩
  · exact ⟨rfl, by decide⟩

end

end Smbusb

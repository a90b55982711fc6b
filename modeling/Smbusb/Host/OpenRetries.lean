import Smbusb.Host.Opening

/-!
# How often the firmware is uploaded

The two functions that open an FX2LP look for the device again after they have uploaded the
firmware, and nothing counts how often.  So how many uploads there are is up to the device
(`opensWithin_iff`): one that takes every upload and never shows the interface of the firmware is
looked for without an end (`not_opens_bounded`).

A device answers in rounds without an end; an opening is given as many as it asks for.
-/

namespace Smbusb

/-- How a routine looks for its device. -/
def OpenRoutine.look : OpenRoutine → UInt → UInt → Round → Host → Except (Int × Host) Handle
  | vidPid => lookVidPid
  | busAddr => lookBusAddr

/-! ## Uploads -/

/-- Whether `InitDevice` calls `CypressUploadIhxFirmware`. -/
def initUploads (r : Round) : Nat :=
  if r.claim ≠ 0 then 0 else if smbInterfaceID r ≠ 0x4d5355 then 1 else 0

/-- The uploads of `openRetry`. -/
def openUploads (look : Round → Host → Except (Int × Host) Handle) : List Round → Host → Nat
  | [], _ => 0
  | r :: rounds, s =>
      match look r s with
      | .error _ => 0
      | .ok h =>
          let (status, s) := initDevice r (s.opened h)
          initUploads r + if status = initRetry then openUploads look rounds s else 0

/-- The uploads of an opening function. -/
def OpenRoutine.uploads (o : Outcomes) (routine : OpenRoutine) (arg0 arg1 : UInt) (s : Host) :
    Nat :=
  if s.device.isSome then 0
  else if o.init < 0 then 0
  else openUploads (routine.look arg0 arg1) o.rounds s

/-- The outcomes when these are the first `n` rounds. -/
def Outcomes.inRounds (o : Outcomes) (f : Nat → Round) (n : Nat) : Outcomes :=
  { o with rounds := (List.range n).map f }

/-- An opening returns after at most `limit` uploads. -/
def OpensWithin (routine : OpenRoutine) (o : Outcomes) (f : Nat → Round) (arg0 arg1 : UInt)
    (s : Host) (limit : Nat) : Prop :=
  ∃ n res, routine.call (o.inRounds f n) arg0 arg1 s = some res ∧
    routine.uploads (o.inRounds f n) arg0 arg1 s ≤ limit

/-! ## Rounds -/

/-- The device is found, and does not show the interface of the firmware. -/
structure AsksForFirmware (routine : OpenRoutine) (arg0 arg1 : UInt) (r : Round) : Prop where
  found : ∃ h, routine.look arg0 arg1 r .init = .ok h
  claim : r.claim = 0
  interface : smbInterfaceID r ≠ 0x4d5355

/-- It is given the firmware, and looked for again. -/
structure Retries (routine : OpenRoutine) (arg0 arg1 : UInt) (r : Round) : Prop
    extends AsksForFirmware routine arg0 arg1 r where
  upload : 0 ≤ r.upload

section

variable {routine : OpenRoutine} {arg0 arg1 : UInt} {r : Round} {rounds : List Round}

/-- Whether a device is found does not depend on what is open. -/
theorem look_ok (s s' : Host) {h : Handle} (hlook : routine.look arg0 arg1 r s = .ok h) :
    routine.look arg0 arg1 r s' = .ok h := by
  cases routine with
  | vidPid =>
      simp only [OpenRoutine.look, lookVidPid] at hlook ⊢
      split at hlook
      · cases hlook
      · exact hlook
  | busAddr =>
      simp only [OpenRoutine.look, lookBusAddr] at hlook ⊢
      split at hlook
      · cases hlook
      · split at hlook
        · cases hlook
        · split at hlook
          · cases hlook
          · next hhandle =>
            rw [← hlook]

/-- `InitDevice` uploads the firmware if it is asked for, and wants a retry if it was taken. -/
theorem initDevice_uploads (r : Round) (s : Host) :
    ((initDevice r s).1 = initRetry ↔
      r.claim = 0 ∧ smbInterfaceID r ≠ 0x4d5355 ∧ 0 ≤ r.upload) ∧
      initUploads r = if r.claim = 0 ∧ smbInterfaceID r ≠ 0x4d5355 then 1 else 0 := by
  unfold initDevice initUploads
  have hdownload : errFirmwareDownload ≠ initRetry := by decide
  have hretry : initRetry < 0 := by decide
  by_cases hclaim : r.claim = 0
  · by_cases hid : smbInterfaceID r = 0x4d5355
    · simp only [hclaim, hid, ne_eq, not_true_eq_false, if_false, false_and, and_false, iff_false,
        and_true]
      split
      · omega
      · exact hdownload
    · simp only [hclaim, hid, ne_eq, not_true_eq_false, not_false_eq_true, if_false, if_true,
        true_and, and_true]
      split
      · next hneg => exact iff_of_false hdownload (Int.not_le.mpr hneg)
      · next hnonneg => exact iff_of_true rfl (Int.not_lt.mp hnonneg)
  · simp only [hclaim, ne_eq, not_false_eq_true, if_true, if_false, false_and, iff_false, and_true]
    exact show errClaimInterface ≠ initRetry by decide

/-- A round that retries uploads the firmware once, and goes on to the next. -/
theorem Retries.round (h : Retries routine arg0 arg1 r) (rounds : List Round) (s : Host) : ∃ s',
    openRetry (routine.look arg0 arg1) (r :: rounds) s =
      openRetry (routine.look arg0 arg1) rounds s' ∧
    openUploads (routine.look arg0 arg1) (r :: rounds) s =
      1 + openUploads (routine.look arg0 arg1) rounds s' := by
  obtain ⟨handle, hfound⟩ := h.found
  obtain ⟨hretry, huploads⟩ := initDevice_uploads r (s.opened handle)
  rw [if_pos ⟨h.claim, h.interface⟩] at huploads
  have hstatus := hretry.mpr ⟨h.claim, h.interface, h.upload⟩
  refine ⟨(initDevice r (s.opened handle)).2, ?_, ?_⟩
  · rw [openRetry, look_ok _ s hfound]
    dsimp only
    rw [if_pos hstatus]
  · rw [openUploads, look_ok _ s hfound]
    dsimp only
    rw [if_pos hstatus, huploads]

/-- Any other round ends the opening. -/
theorem openRetry_settles (h : ¬ Retries routine arg0 arg1 r) (s : Host) :
    (∃ res, openRetry (routine.look arg0 arg1) (r :: rounds) s = some res) ∧
      (AsksForFirmware routine arg0 arg1 r →
        openUploads (routine.look arg0 arg1) (r :: rounds) s = 1) ∧
      (¬ AsksForFirmware routine arg0 arg1 r →
        openUploads (routine.look arg0 arg1) (r :: rounds) s = 0) := by
  rw [openRetry, openUploads]
  cases hlook : routine.look arg0 arg1 r s with
  | error res =>
      refine ⟨⟨res, rfl⟩, fun hasks => ?_, fun _ => rfl⟩
      obtain ⟨handle, hfound⟩ := hasks.found
      rw [look_ok _ s hfound] at hlook
      cases hlook
  | ok handle =>
      have hfound := look_ok s .init hlook
      obtain ⟨hretry, huploads⟩ := initDevice_uploads r (s.opened handle)
      have hsettles : (initDevice r (s.opened handle)).1 ≠ initRetry := fun hstatus =>
        have hasks := hretry.mp hstatus
        h ⟨⟨⟨handle, hfound⟩, hasks.1, hasks.2.1⟩, hasks.2.2⟩
      dsimp only
      rw [if_neg hsettles, if_neg hsettles, Nat.add_zero, huploads]
      refine ⟨⟨_, rfl⟩, fun hasks => if_pos ⟨hasks.claim, hasks.interface⟩, fun hno => if_neg ?_⟩
      exact fun hasks => hno ⟨⟨handle, hfound⟩, hasks.1, hasks.2⟩

/-! ## Rounds one behind the other -/

/-- An opening does not return as long as the rounds retry. -/
theorem openRetry_none (h : ∀ r ∈ rounds, Retries routine arg0 arg1 r) (s : Host) :
    openRetry (routine.look arg0 arg1) rounds s = none := by
  induction rounds generalizing s with
  | nil => rfl
  | cons r rounds ih =>
      obtain ⟨s', hround, -⟩ := (h r List.mem_cons_self).round rounds s
      rw [hround]
      exact ih (fun r' hr' => h r' (List.mem_cons_of_mem r hr')) s'

/-- It returns in the first round that does not, behind an upload for each one before. -/
theorem openRetry_first {before : List Round} (after : List Round)
    (hbefore : ∀ r ∈ before, Retries routine arg0 arg1 r) (h : ¬ Retries routine arg0 arg1 r)
    (s : Host) :
    (∃ res, openRetry (routine.look arg0 arg1) (before ++ r :: after) s = some res) ∧
      (AsksForFirmware routine arg0 arg1 r →
        openUploads (routine.look arg0 arg1) (before ++ r :: after) s = before.length + 1) ∧
      (¬ AsksForFirmware routine arg0 arg1 r →
        openUploads (routine.look arg0 arg1) (before ++ r :: after) s = before.length) := by
  induction before generalizing s with
  | nil => exact openRetry_settles h s
  | cons r' before ih =>
      obtain ⟨s', hround, huploads⟩ :=
        (hbefore r' List.mem_cons_self).round (before ++ r :: after) s
      rw [List.cons_append, hround, huploads, List.length_cons, Nat.add_comm before.length]
      obtain ⟨hreturns, hasks, hno⟩ :=
        ih (fun r'' hr'' => hbefore r'' (List.mem_cons_of_mem r' hr'')) s'
      exact ⟨hreturns, fun h' => by rw [hasks h', Nat.add_assoc], fun h' => by rw [hno h']⟩

/-- The rounds up to the first that does not retry. -/
theorem rounds_split (f : Nat → Round) {k n : Nat} (h : k < n) : ∃ after,
    (List.range n).map f = (List.range k).map f ++ f k :: after := by
  obtain ⟨m, rfl⟩ := Nat.exists_eq_add_of_lt h
  refine ⟨(List.range m).map fun i => f (k + 1 + i), ?_⟩
  rw [Nat.add_right_comm, List.range_add, List.range_succ, List.map_append, List.map_append,
    List.append_assoc, List.map_map]
  rfl

variable (routine arg0 arg1) in
/-- An opening that has something to open looks for its device. -/
theorem opens_looks {o : Outcomes} {f : Nat → Round} {s : Host} (hs : ¬ s.device.isSome)
    (ho : ¬ o.init < 0) (n : Nat) :
    routine.call (o.inRounds f n) arg0 arg1 s =
        openRetry (routine.look arg0 arg1) ((List.range n).map f) s ∧
      routine.uploads (o.inRounds f n) arg0 arg1 s =
        openUploads (routine.look arg0 arg1) ((List.range n).map f) s := by
  constructor
  · cases routine with
    | vidPid =>
        rw [OpenRoutine.call, smbOpenDeviceVidPid, if_neg hs]
        exact if_neg ho
    | busAddr =>
        rw [OpenRoutine.call, smbOpenDeviceBusAddr, if_neg hs]
        exact if_neg ho
  · rw [OpenRoutine.uploads, if_neg hs]
    exact if_neg ho

variable (routine arg0 arg1) in
/-- An opening that has nothing to open returns at once. -/
theorem opens_at_once {o : Outcomes} (f : Nat → Round) {s : Host}
    (h : s.device.isSome ∨ o.init < 0) :
    (∃ res, routine.call (o.inRounds f 0) arg0 arg1 s = some res) ∧
      routine.uploads (o.inRounds f 0) arg0 arg1 s = 0 := by
  by_cases hs : s.device.isSome
  · refine ⟨⟨(errAlreadyOpen, s), ?_⟩, if_pos hs⟩
    cases routine with
    | vidPid => exact if_pos hs
    | busAddr => exact if_pos hs
  · have ho := h.resolve_left hs
    constructor
    · refine ⟨(-1, s), ?_⟩
      cases routine with
      | vidPid =>
          rw [OpenRoutine.call, smbOpenDeviceVidPid, if_neg hs]
          exact if_pos ho
      | busAddr =>
          rw [OpenRoutine.call, smbOpenDeviceBusAddr, if_neg hs]
          exact if_pos ho
    · rw [OpenRoutine.uploads, if_neg hs]
      exact if_pos ho

/-- An opening that retries for a while ends in the first round that does not. -/
theorem opens_first {o : Outcomes} {f : Nat → Round} {s : Host} {k n : Nat}
    (hs : ¬ s.device.isSome) (ho : ¬ o.init < 0) (hkn : k < n)
    (hbefore : ∀ j < k, Retries routine arg0 arg1 (f j))
    (h : ¬ Retries routine arg0 arg1 (f k)) :
    (∃ res, routine.call (o.inRounds f n) arg0 arg1 s = some res) ∧
      (AsksForFirmware routine arg0 arg1 (f k) →
        routine.uploads (o.inRounds f n) arg0 arg1 s = k + 1) ∧
      (¬ AsksForFirmware routine arg0 arg1 (f k) →
        routine.uploads (o.inRounds f n) arg0 arg1 s = k) := by
  obtain ⟨hcall, huploads⟩ := opens_looks routine arg0 arg1 hs ho n
  obtain ⟨after, hrounds⟩ := rounds_split f hkn
  have hretry : ∀ r ∈ (List.range k).map f, Retries routine arg0 arg1 r := by
    intro r hr
    obtain ⟨j, hj, rfl⟩ := List.mem_map.mp hr
    exact hbefore j (List.mem_range.mp hj)
  have hfirst := openRetry_first after hretry h s
  rw [List.length_map, List.length_range] at hfirst
  rw [hcall, huploads, hrounds]
  exact hfirst

end

/-- An opening returns after at most so many uploads exactly when it has nothing to open, or a round
does not take the firmware and ask for a retry before there were too many. -/
theorem opensWithin_iff (routine : OpenRoutine) (o : Outcomes) (f : Nat → Round)
    (arg0 arg1 : UInt) (s : Host) (limit : Nat) :
    OpensWithin routine o f arg0 arg1 s limit ↔ s.device.isSome ∨ o.init < 0 ∨
      ∃ k ≤ limit, ¬ Retries routine arg0 arg1 (f k) ∧
        (AsksForFirmware routine arg0 arg1 (f k) → k < limit) := by
  by_cases hopen : s.device.isSome ∨ o.init < 0
  · obtain ⟨⟨res, hcall⟩, huploads⟩ := opens_at_once routine arg0 arg1 f hopen
    exact iff_of_true ⟨0, res, hcall, huploads.le.trans (Nat.zero_le limit)⟩
      (or_assoc.mp (.inl hopen))
  · obtain ⟨hs, ho⟩ := not_or.mp hopen
    -- Of the rounds that do not retry, the first one counts.
    have hfirst : ∀ k, ¬ Retries routine arg0 arg1 (f k) → ∃ j ≤ k,
        ¬ Retries routine arg0 arg1 (f j) ∧ ∀ i < j, Retries routine arg0 arg1 (f i) := by
      intro k hk
      classical
      have hex : ∃ j, ¬ Retries routine arg0 arg1 (f j) := ⟨k, hk⟩
      exact ⟨Nat.find hex, Nat.find_min' hex hk, Nat.find_spec hex,
        fun i hi => Classical.not_not.mp (Nat.find_min hex hi)⟩
    rw [← or_assoc, or_iff_right hopen]
    constructor
    · rintro ⟨n, res, hcall, huploads⟩
      have hends : ∃ k < n, ¬ Retries routine arg0 arg1 (f k) := by
        by_contra hno
        rw [(opens_looks routine arg0 arg1 hs ho n).1, openRetry_none] at hcall
        · cases hcall
        · intro r hr
          obtain ⟨j, hj, rfl⟩ := List.mem_map.mp hr
          exact Classical.not_not.mp fun h => hno ⟨j, List.mem_range.mp hj, h⟩
      obtain ⟨k, hkn, hk⟩ := hends
      obtain ⟨j, hjk, hj, hbefore⟩ := hfirst k hk
      obtain ⟨-, hasks, hno⟩ := opens_first hs ho (Nat.lt_of_le_of_lt hjk hkn) hbefore hj
      by_cases hask : AsksForFirmware routine arg0 arg1 (f j)
      · rw [hasks hask] at huploads
        exact ⟨j, Nat.le_of_succ_le huploads, hj, fun _ => huploads⟩
      · rw [hno hask] at huploads
        exact ⟨j, huploads, hj, fun h => absurd h hask⟩
    · rintro ⟨k, hk, hsettles, hasks⟩
      obtain ⟨j, hjk, hj, hbefore⟩ := hfirst k hsettles
      obtain ⟨⟨res, hcall⟩, huploads, hno⟩ :=
        opens_first hs ho (Nat.lt_succ_self j) hbefore hj
      refine ⟨j + 1, res, hcall, ?_⟩
      by_cases hask : AsksForFirmware routine arg0 arg1 (f j)
      · rw [huploads hask]
        rcases Nat.lt_or_eq_of_le hjk with hlt | rfl
        · exact Nat.le_trans hlt hk
        · exact hasks hask
      · rw [hno hask]
        exact Nat.le_trans hjk hk

/-- A device that is always found, takes every upload, and never shows the interface of the
firmware. -/
def stubbornRound : Round where
  byId _ _ := some 0
  devices := none
  claim := 0
  interfaceId := (0, 0)
  upload := 1
  version := (0, 0)

/-- No number of uploads is enough for every device. -/
theorem not_opens_bounded : ¬ ∃ limit, ∀ f : Nat → Round,
    OpensWithin .vidPid ⟨0, [], none, [], false⟩ f 0x04b4 0x8613 .init limit := by
  rintro ⟨limit, h⟩
  obtain ⟨n, res, hcall, -⟩ := h fun _ => stubbornRound
  have hnone : ∀ (rounds : List Round) (s : Host), (∀ r ∈ rounds, r = stubbornRound) →
      openRetry (lookVidPid 0x04b4 0x8613) rounds s = none := by
    intro rounds
    induction rounds with
    | nil => exact fun _ _ => rfl
    | cons r rounds ih =>
        intro s hall
        obtain rfl := hall r List.mem_cons_self
        exact ih _ fun r' hr' => hall r' (List.mem_cons_of_mem _ hr')
  have hends : openRetry (lookVidPid 0x04b4 0x8613)
      ((List.range n).map fun _ => stubbornRound) .init = some res := hcall
  rw [hnone _ _ fun r hr => by
    obtain ⟨_, -, rfl⟩ := List.mem_map.mp hr
    rfl] at hends
  cases hends

end Smbusb

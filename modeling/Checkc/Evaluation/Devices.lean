import Checkc.Config.Lists
import Checkc.Evaluation.Message

/-! # Device whitelist compliance

A character or block device is allowed when its major number or its whole id is
whitelisted. The test fails when a device is left over and lists these devices.
-/

namespace Checkc

open Outcome

/-- The line that reports a device. -/
def devStr (devType : DeviceType) (id : Device.Id) (file : String) : String :=
  s!"{devType.display} {id.major}:{id.minor} at {file}"

/-- The body of the loop of `dev_whitelist_compliance`. -/
def checkDevice (unprivileged : Bool) (notAllowedDev : List String) (dev : Device) :
    Result (List String) := do
  let id ← unwrap dev.id
  -- skip non-char and non-block devices
  if id.getType ≠ .char ∧ id.getType ≠ .block then pure notAllowedDev
  else if (id.getType, id.major) ∉ devMajorWhitelist then
    if ¬ (devWhitelistGeneral.get id).isSome then
      if ¬ (unprivileged ∧ (devWhitelistUnprivileged.get id).isSome) then do
        let devType ← unwrap (ProtoEnum.fromI32 id.type)
        pure (notAllowedDev ++ [devStr devType id dev.file])
      else pure notAllowedDev
    else pure notAllowedDev
  else pure notAllowedDev

/-- `dev_whitelist_compliance`. -/
def devWhitelistCompliance (devices : List Device) (unprivileged : Bool) : Result TestResult := do
  let notAllowedDev ← devices.foldlM (checkDevice unprivileged) []
  pure { passed := notAllowedDev.isEmpty, valid := true, info := notAllowedDev }

/-- The whitelists allow a character or block device with this id. -/
def Device.Id.Whitelisted (unprivileged : Bool) (id : Device.Id) : Prop :=
  (id.getType = .char ∧ 136 ≤ id.major.toNat ∧ id.major.toNat ≤ 143) ∨
    (devWhitelistGeneral.get id).isSome = true ∨
    ((devWhitelistUnprivileged.get id).isSome = true ∧ unprivileged = true)

instance (u : Bool) (id : Device.Id) : Decidable (id.Whitelisted u) :=
  inferInstanceAs (Decidable (_ ∨ _))

/-- The device is a character or block device that no whitelist allows. -/
def Device.Offending (unprivileged : Bool) (dev : Device) : Prop :=
  ∃ id ∈ dev.id, (id.getType = .char ∨ id.getType = .block) ∧ ¬ id.Whitelisted unprivileged

instance (u : Bool) (dev : Device) : Decidable (dev.Offending u) :=
  match h : dev.id with
  | none => isFalse fun ⟨_, hi, _⟩ => by simp [h] at hi
  | some id => decidable_of_iff
      ((id.getType = .char ∨ id.getType = .block) ∧ ¬ id.Whitelisted u)
      (by simp [Device.Offending, h])

/-- The line that reports a device, from its own id. -/
def Device.line (dev : Device) : String :=
  match dev.id with
  | some id => devStr id.getType id dev.file
  | none => ""

/-- The test can process the device: it has an id, and a known type if it is reported. -/
def Device.Processable (dev : Device) : Prop :=
  ∃ id ∈ dev.id, ∃ t : DeviceType, ProtoEnum.toI32 t = id.type

theorem Device.Id.getType_eq {id : Device.Id} {t : DeviceType} (h : ProtoEnum.toI32 t = id.type) :
    id.getType = t := by
  rw [Device.Id.getType, ← h, ProtoEnum.getter_toI32]

/-- An id without a known type reads as a block device that no whitelist allows. -/
theorem Device.Id.unknown_type {u : Bool} {id : Device.Id}
    (h : ∀ t : DeviceType, ProtoEnum.toI32 t ≠ id.type) :
    id.getType = .block ∧ ¬ id.Whitelisted u := by
  have hn : ProtoEnum.fromI32 id.type = (none : Option DeviceType) := by
    cases hf : (ProtoEnum.fromI32 id.type : Option DeviceType) with
    | none => rfl
    | some t => exact absurd (ProtoEnum.fromI32_eq_some.mp hf) (h t)
  have hb : id.getType = .block := by rw [Device.Id.getType, ProtoEnum.getter, hn]; rfl
  refine ⟨hb, ?_⟩
  rintro (⟨hc, -⟩ | hg | ⟨hu, -⟩)
  · rw [hb] at hc; cases hc
  · exact h _ (type_of_mem_whitelist (Or.inl hg)).symm
  · exact h _ (type_of_mem_whitelist (Or.inr hu)).symm

theorem Device.offending_iff {u : Bool} {dev : Device} {id : Device.Id} (h : dev.id = some id) :
    dev.Offending u ↔ (id.getType = .char ∨ id.getType = .block) ∧ ¬ id.Whitelisted u := by
  simp [Device.Offending, h]

theorem checkDevice_of_known {u : Bool} {acc : List String} {dev : Device} {id : Device.Id}
    {t : DeviceType} (hd : dev.id = some id) (ht : ProtoEnum.toI32 t = id.type) :
    checkDevice u acc dev = .ok (acc ++ if dev.Offending u then [dev.line] else []) := by
  have hg := Device.Id.getType_eq ht
  have hl : dev.line = devStr t id dev.file := by rw [Device.line, hd, ← hg]
  rw [hl, checkDevice, hd, unwrap_some, ok_bind, ← ht, ProtoEnum.fromI32_toI32, unwrap_some]
  simp only [Device.offending_iff hd, Device.Id.Whitelisted, hg, mem_devMajorWhitelist]
  by_cases hs : t ≠ .char ∧ t ≠ .block
  · rw [if_pos hs, if_neg (by tauto), List.append_nil]; rfl
  · have hs' : t = .char ∨ t = .block := by tauto
    rw [if_neg hs]
    simp only [hs', true_and]
    split_ifs <;> first | rfl | (rw [List.append_nil]; rfl) | tauto

theorem checkDevice_eq_ok {u : Bool} {acc r : List String} {dev : Device} :
    checkDevice u acc dev = .ok r ↔
      dev.Processable ∧ r = acc ++ (if dev.Offending u then [dev.line] else []) := by
  constructor
  · intro h
    suffices hp : dev.Processable by
      obtain ⟨id, hd, t, ht⟩ := hp
      rw [checkDevice_of_known hd ht] at h
      exact ⟨⟨id, hd, t, ht⟩, (ok.inj h).symm⟩
    rw [checkDevice, bind_eq_ok] at h
    obtain ⟨id, hd, h⟩ := h
    rw [unwrap_eq_ok] at hd
    refine ⟨id, hd, ?_⟩
    by_contra hn
    push Not at hn
    obtain ⟨hb, hw⟩ := Device.Id.unknown_type (u := u) hn
    have hf : ∀ t : DeviceType, ProtoEnum.fromI32 id.type ≠ some t :=
      fun t ht => hn t (ProtoEnum.fromI32_eq_some.mp ht)
    simp only [Device.Id.Whitelisted, not_or] at hw
    rw [if_neg (by simp [hb]), if_pos (by simp [mem_devMajorWhitelist, hb]), if_pos hw.2.1,
      if_pos (by tauto), bind_eq_ok] at h
    obtain ⟨t, ht, -⟩ := h
    exact hf t (unwrap_eq_ok.mp ht)
  · rintro ⟨⟨id, hd, t, ht⟩, rfl⟩
    exact checkDevice_of_known hd ht

/-- The result of the test on devices that it can process. -/
def whitelistResult (devices : List Device) (unprivileged : Bool) : TestResult :=
  let lines := (devices.filter (Device.Offending unprivileged)).map Device.line
  { passed := lines.isEmpty, valid := true, info := lines }

/-- The test returns exactly when it can process every device, and then it lists the
offending devices in order. -/
theorem devWhitelistCompliance_eq_ok {devices : List Device} {u : Bool} {r : TestResult} :
    devWhitelistCompliance devices u = .ok r ↔
      (∀ dev ∈ devices, dev.Processable) ∧ r = whitelistResult devices u := by
  have hf : devices.foldl (fun acc dev => acc ++ if dev.Offending u then [dev.line] else []) [] =
      (devices.filter (Device.Offending u)).map Device.line := by
    rw [← List.flatMap_eq_foldl]
    induction devices with
    | nil => rfl
    | cons dev l ih => by_cases h : dev.Offending u <;> simp [h, ih]
  have hl : ∀ r, devices.foldlM (checkDevice u) [] = .ok r ↔
      (∀ dev ∈ devices, dev.Processable) ∧ r = devices.foldl
        (fun acc dev => acc ++ if dev.Offending u then [dev.line] else []) [] :=
    fun r => foldlM_eq_ok_iff fun acc r dev _ => checkDevice_eq_ok
  simp only [devWhitelistCompliance, bind_eq_ok, pure_eq_ok, hl, hf]
  constructor
  · rintro ⟨_, ⟨hp, rfl⟩, rfl⟩; exact ⟨hp, rfl⟩
  · rintro ⟨hp, rfl⟩; exact ⟨_, ⟨hp, rfl⟩, rfl⟩

theorem whitelistResult_passed {devices : List Device} {u : Bool} :
    (whitelistResult devices u).passed = true ↔ ∀ dev ∈ devices, ¬ dev.Offending u := by
  simp [whitelistResult]

end Checkc

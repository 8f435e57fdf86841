import Checkc.Pipeline.Verdicts

/-! # Capabilities from the mask to the report

The permitted capabilities of a process are read as a mask, stored as a list of numbers,
divided among the categories and collected again for goal S1.
-/

namespace Checkc

open Outcome (bind_eq_ok pure_eq_ok)

namespace CapSet

/-- Decoding looks at no bit above that of the last capability. -/
theorem decode_congr {m m' : BitVec 64} (h : ∀ i < 41, m'.getLsbD i = m.getLsbD i) :
    decode m' = decode m := by
  have hb : ∀ caps, ∀ i ∈ List.range' Capability.first (Capability.last + 1 - Capability.first),
      decodeBit m' caps i = decodeBit m caps i := by
    intro caps i hi
    have h41 := mem_bits.mp hi
    simp only [decodeBit, bit_set_iff _ (h41.trans (by decide : 41 < 64)), h i h41]
  unfold decode
  generalize (∅ : HashSet Capability) = caps
  generalize List.range' Capability.first (Capability.last + 1 - Capability.first) = l at hb
  induction l generalizing caps with
  | nil => rfl
  | cons i l ih =>
    rw [List.foldlM_cons, List.foldlM_cons, hb caps i List.mem_cons_self]
    exact congrArg _ (funext fun caps =>
      ih caps fun caps i hi => hb caps i (List.mem_cons_of_mem _ hi))

end CapSet

section

variable {env env₀ : Env} {config : Config} {root : PathBuf}

/-- The permitted capabilities of an evaluation are those whose bits are set in the mask. -/
theorem Evaluation.mem_capabilities_of_mask {x : Evaluation env config root}
    {lines : List (Option String)} {m : BitVec 64}
    (hm : CapSet.capPrm.capsEncoded (lines.filterMap id) = .ok m)
    (hc : Caps.capsConfig env₀ (.ok lines) = .ok x.input.caps) {cap : Capability} :
    cap ∈ x.capabilities ↔ cap ≠ .unspecified ∧ m.getLsbD (cap.number - 1) = true := by
  obtain ⟨lines', m', caps, hl, hm', hd, hp⟩ := Caps.capsConfig_capPrm hc
  cases hl
  obtain rfl := Outcome.ok_unique hm hm'
  rw [Evaluation.capabilities, HashSet.mem_ofList, Caps.Config.getCapPrm, hp, List.mem_filterMap,
    ← CapSet.mem_decode hd]
  simp [ProtoEnum.fromI32_eq_some]

namespace Evaluation

variable {x : Evaluation env config root} {cap : Capability}

theorem nodup_flatMap_capabilities : (x.categories.flatMap (·.2.capabilities)).Nodup :=
  x.flatMap_capabilities_perm.nodup_iff.mpr
    ((List.Nodup.filter _ (by decide)).map ProtoEnum.toI32_injective)

theorem mem_flatMap_capabilities :
    ProtoEnum.toI32 cap ∈ x.categories.flatMap (·.2.capabilities) ↔
      cap ≠ .unspecified ∧ cap ∈ x.capabilities := by
  rw [x.flatMap_capabilities_perm.mem_iff, List.mem_map_of_injective ProtoEnum.toI32_injective,
    List.mem_filter, Capability.mem_list, decide_eq_true_eq]

/-- A reported capability is listed by exactly one category. -/
theorem existsUnique_category (hc : cap ≠ .unspecified) (hm : cap ∈ x.capabilities) :
    ∃! label, ∃ c, x.result.categories.get label = some c ∧
      ProtoEnum.toI32 cap ∈ c.capabilities := by
  obtain ⟨-, hdisj⟩ := List.nodup_flatMap.mp (nodup_flatMap_capabilities (x := x))
  obtain ⟨⟨label, c⟩, he, hcap⟩ := List.mem_flatMap.mp (mem_flatMap_capabilities.mpr ⟨hc, hm⟩)
  refine ⟨label, ⟨c, get_categories.mpr he, hcap⟩, ?_⟩
  rintro label' ⟨c', he', hcap'⟩
  rw [get_categories] at he'
  by_contra hne
  have : Std.Symm (Function.onFun List.Disjoint fun e : String × Category => e.2.capabilities) :=
    ⟨fun _ _ h => h.symm⟩
  exact hdisj.forall he he' (fun h => hne (congrArg Prod.fst h).symm) hcap hcap'

/-- A category lists no capability twice. -/
theorem count_category {label : String} {c : Category}
    (he : x.result.categories.get label = some c) (hm : ProtoEnum.toI32 cap ∈ c.capabilities) :
    c.capabilities.count (ProtoEnum.toI32 cap) = 1 := by
  obtain ⟨hnd, -⟩ := List.nodup_flatMap.mp (nodup_flatMap_capabilities (x := x))
  exact List.count_eq_one_of_mem (hnd (label, c) (get_categories.mp he)) hm

/-- Goal S1 lists each permitted capability once and no other one. -/
theorem count_capabilities (y : Assessment env x.result) (hc : cap ≠ .unspecified) :
    (y.capabilities.map ProtoEnum.toI32).count (ProtoEnum.toI32 cap) =
      if cap ∈ x.capabilities then 1 else 0 := by
  have hnd : y.capabilities.Nodup :=
    (capabilities_perm y).nodup_iff.mpr (List.Nodup.filter _ (by decide))
  rw [List.count_map_of_injective _ _ ProtoEnum.toI32_injective, hnd.count]
  simp only [mem_capabilities, ne_eq, hc, not_false_eq_true, true_and]

/-- The table of capabilities has an entry for each capability that goal S1 lists. -/
theorem exists_of_mem_capabilities (y : Assessment env x.result) {n : Int}
    (hn : n ∈ y.capabilities.map ProtoEnum.toI32) : ∃ cap ∈ Capability.list,
      ProtoEnum.toI32 cap = n ∧ cap ∈ x.capabilities ∧ (capMap.get cap).isSome = true := by
  obtain ⟨cap, hcap, rfl⟩ := List.mem_map.mp hn
  obtain ⟨hu, hx⟩ := (mem_capabilities y).mp hcap
  exact ⟨cap, Capability.mem_list.mpr hu, rfl, hx, capMap_isSome_iff.mpr hu⟩

end Evaluation

/-- No capability is lost or counted twice between the mask and the assessment. -/
theorem capabilities_of_mask {e : EvalResult} {caps : Caps.Config}
    {lines : List (Option String)} {m : BitVec 64}
    (hm : CapSet.capPrm.capsEncoded (lines.filterMap id) = .ok m)
    (hc : Caps.capsConfig env₀ (.ok lines) = .ok caps) (hconf : config.capsConfig = some caps)
    (h : EvalResult.fromConfig env config root = .ok e) :
    ∃ r goal, assessEvalResult env e = .ok r ∧ r.goalS1 = some goal ∧
      (∀ cap ∈ Capability.list,
        goal.capabilities.count (ProtoEnum.toI32 cap) =
            (if m.getLsbD (cap.number - 1) then 1 else 0) ∧
          (m.getLsbD (cap.number - 1) = true →
            (∃! label, ∃ c, e.categories.get label = some c ∧
              ProtoEnum.toI32 cap ∈ c.capabilities) ∧
            ∀ label c, e.categories.get label = some c → ProtoEnum.toI32 cap ∈ c.capabilities →
              c.capabilities.count (ProtoEnum.toI32 cap) = 1) ∧
          (m.getLsbD (cap.number - 1) = false → ∀ label c,
            e.categories.get label = some c → ProtoEnum.toI32 cap ∉ c.capabilities)) ∧
      (∀ m' : BitVec 64, (∀ i < 41, m'.getLsbD i = m.getLsbD i) →
        CapSet.decode m' = CapSet.decode m) ∧
      ∀ n ∈ goal.capabilities, ∃ cap ∈ Capability.list, ProtoEnum.toI32 cap = n ∧
        m.getLsbD (cap.number - 1) = true ∧ (capMap.get cap).isSome = true := by
  obtain ⟨x, y, rfl, hr, -⟩ := exists_report h
  have hcaps : caps = x.input.caps :=
    Option.some.inj (hconf.symm.trans (congrArg Config.capsConfig x.config_eq))
  subst hcaps
  have hbit {cap : Capability} (hn : cap ≠ .unspecified) :
      cap ∈ x.capabilities ↔ m.getLsbD (cap.number - 1) = true := by
    rw [Evaluation.mem_capabilities_of_mask hm hc]
    exact and_iff_right hn
  refine ⟨y.report, _, hr, rfl, fun cap hcap => ?_, fun m' => CapSet.decode_congr, fun n hn => ?_⟩
  · have hn := Capability.mem_list.mp hcap
    refine ⟨?_, fun hb => ⟨Evaluation.existsUnique_category hn ((hbit hn).mpr hb),
      fun _ _ => Evaluation.count_category⟩, ?_⟩
    · simp only [← hbit hn]
      exact Evaluation.count_capabilities y hn
    · intro hb label c hl hcap
      have hmem := Evaluation.mem_flatMap_capabilities.mp
        (List.mem_flatMap.mpr ⟨(label, c), Evaluation.get_categories.mp hl, hcap⟩)
      rw [hbit hn, hb] at hmem
      exact Bool.false_ne_true hmem.2
  · obtain ⟨cap, hcap, rfl, hx, hmap⟩ := Evaluation.exists_of_mem_capabilities y hn
    exact ⟨cap, hcap, rfl, (hbit (Capability.mem_list.mp hcap)).mp hx, hmap⟩

/-- `CAP_CHOWN` and `CAP_NET_ADMIN` are permitted, together with an unknown bit. -/
def statusLines : List (Option String) :=
  [some "CapInh:\t0000000000000000", some "CapPrm:\t8000000000001001",
   some "CapEff:\t0000000000001001", some "CapBnd:\t0000000000001001",
   some "CapAmb:\t0000000000000000"]

theorem capabilities_of_mask_status : ∃ caps e r goal,
    Caps.capsConfig .logging (.ok statusLines) = .ok caps ∧
    EvalResult.fromConfig .logging { Collected.isolated.toConfig with capsConfig := some caps }
      "/c" = .ok e ∧
    assessEvalResult .logging e = .ok r ∧ r.goalS1 = some goal ∧
    goal.capabilities.count (ProtoEnum.toI32 Capability.capNetAdmin) = 1 ∧
    goal.capabilities.count (ProtoEnum.toI32 Capability.capSysAdmin) = 0 := by
  have hm : CapSet.capPrm.capsEncoded (statusLines.filterMap id) = .ok 0x8000000000001001#64 := by
    decide +kernel
  obtain ⟨caps, hc⟩ : ∃ caps, Caps.capsConfig .logging (.ok statusLines) = .ok caps := ⟨_, rfl⟩
  obtain ⟨e, he⟩ : ∃ e, EvalResult.fromConfig .logging
    { Collected.isolated.toConfig with capsConfig := some caps } "/c" = .ok e := ⟨_, rfl⟩
  obtain ⟨r, goal, hr, hg, hcaps, -⟩ := capabilities_of_mask hm hc rfl he
  refine ⟨caps, e, r, goal, hc, he, hr, hg, ?_, ?_⟩
  · exact (hcaps .capNetAdmin (by decide)).1
  · exact (hcaps .capSysAdmin (by decide)).1

end

end Checkc
